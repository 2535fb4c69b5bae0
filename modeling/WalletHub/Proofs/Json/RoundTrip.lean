import WalletHub.Json.Parser
import WalletHub.Json.Printer
import WalletHub.Proofs.Text.Digits
import Mathlib.Tactic.FinCases

/-!
# Every JSON tree is read back from its text

`parse_render` says that reading undoes writing for every tree and both layouts: numbers in any
spelling the tree can hold, strings of any characters, arrays and objects of any size and nesting.
A value is read up to where it ends, so the lemmas carry the text that follows it; after a number
this text must not go on with what could belong to the number (`Closed`). The fuel of the parser is
enough as soon as it covers the length of the text.

## What is proved

* `readPieces_escapes`, `readString_writeString`: strings, whatever has to be escaped in them.
* `readNumeral_body`: numbers, from the digits (`readWhole_ofNat`), the places (`readFraction_write`) and the
  exponent (`readExponent_write`).
* `skipBlanks_lineBreak`, `readValue_congr`: the layout makes no difference, since blanks are passed over.
* `readItems_last`, `readItems_more`, `readMembers_last`, `readMembers_more`: how the last item of an array, the
  last member of an object, and the others are read.
* `readValue_write`, `readItems_write`, `readMembers_write`: by induction over the tree, its items and its
  members, a tree is read back and the text that follows is left.
* `parse_render`: nothing follows the whole text.
-/

namespace WalletHub.Json

open Digit (Apart apart_cons apart_nil span_toChars)

/-! ### Literals and strings -/

theorem expect_append (word rest : List Char) : expect word (word ++ rest) = .ok rest := by
  induction word with
  | nil => rfl
  | cons c word ih => simp [expect, ih]

theorem hexValue?_hexDigit : ∀ n, n < 16 → hexValue? (hexDigit n) = some n := by decide

/-- The three shapes of a character inside a string: as it is, after a backslash, or by number. -/
theorem escape_cases (c : Char) :
    (escape c = [c] ∧ c ≠ '"' ∧ c ≠ '\\' ∧ 32 ≤ c.toNat) ∨
      (∃ letter, escape c = ['\\', letter] ∧ letter ≠ 'u' ∧ escaped? letter = some c) ∨
      (escape c = ['\\', 'u', '0', '0', hexDigit (c.toNat / 16), hexDigit (c.toNat % 16)] ∧
        c.toNat < 32) := by
  have named (n : Nat) (h : c.toNat = n) : c = Char.ofNat n := by rw [← h, Char.ofNat_toNat]
  by_cases h34 : c = '"'
  · exact .inr (.inl ⟨'"', by simp [escape, h34], by decide, by rw [h34]; rfl⟩)
  by_cases h92 : c = '\\'
  · exact .inr (.inl ⟨'\\', by simp [escape, h92], by decide, by rw [h92]; rfl⟩)
  by_cases h10 : c = '\n'
  · exact .inr (.inl ⟨'n', by simp [escape, h10], by decide, by rw [h10]; rfl⟩)
  by_cases h13 : c = '\r'
  · exact .inr (.inl ⟨'r', by simp [escape, h13], by decide, by rw [h13]; rfl⟩)
  by_cases h9 : c = '\t'
  · exact .inr (.inl ⟨'t', by simp [escape, h9], by decide, by rw [h9]; rfl⟩)
  by_cases h8 : c.toNat = 8
  · exact .inr (.inl ⟨'b', by simp [escape, h34, h92, h10, h13, h9, h8], by decide,
      by rw [named 8 h8]; rfl⟩)
  by_cases h12 : c.toNat = 12
  · exact .inr (.inl ⟨'f', by simp [escape, h34, h92, h10, h13, h9, h12], by decide,
      by rw [named 12 h12]; rfl⟩)
  by_cases hc : c.toNat < 32
  · exact .inr (.inr ⟨by simp [escape, h34, h92, h10, h13, h9, h8, h12, hc], hc⟩)
  · exact .inl ⟨by simp [escape, h34, h92, h10, h13, h9, h8, h12, hc], h34, h92, Nat.le_of_not_lt hc⟩

/-- An escaped character is read as one piece. -/
theorem readPieces_escape (c : Char) (rest : List Char) :
    readPieces (escape c ++ rest) = prepend (.char c) (readPieces rest) := by
  obtain ⟨h, hq, hb, hc⟩ | ⟨letter, h, hu, hl⟩ | ⟨h, hc⟩ := escape_cases c
  · have hc' : ¬ c.toNat < 32 := Nat.not_lt.mpr hc
    simp [h, readPieces, hb, hc']
  · simp [h, readPieces, hu, hl]
  · have hz : hexValue? '0' = some 0 := by decide
    have h1 := hexValue?_hexDigit (c.toNat / 16) (by omega)
    have h2 := hexValue?_hexDigit (c.toNat % 16) (by omega)
    have hunit : ((0 * 16 + 0) * 16 + c.toNat / 16) * 16 + c.toNat % 16 = c.toNat := by omega
    have hpiece : Piece.ofUnit c.toNat = .char c := by
      rw [Piece.ofUnit, if_neg (by omega), Char.ofNat_toNat]
    simp only [h, List.cons_append, List.nil_append]
    rw [readPieces]
    simp only [hz, h1, h2, hunit, hpiece]

theorem readPieces_escapes (cs rest : List Char) :
    readPieces (cs.flatMap escape ++ '"' :: rest) = .ok (cs.map .char, rest) := by
  induction cs with
  | nil => simp [readPieces]
  | cons c cs ih =>
    rw [List.flatMap_cons, List.append_assoc, readPieces_escape, ih]
    rfl

theorem assemble_chars (cs : List Char) : assemble (cs.map .char) = some cs := by
  induction cs with
  | nil => rfl
  | cons c cs ih => simp [assemble, ih]

/-- A string is read back after its opening mark. One without a text is written as half of a
surrogate pair. -/
theorem readString_writeString (s : Option String) (rest : List Char) :
    ∃ body, writeString s = '"' :: body ∧ readString (body ++ rest) = .ok (s, rest) := by
  cases s with
  | some s =>
    refine ⟨_, rfl, ?_⟩
    rw [List.append_assoc, readString, List.singleton_append, readPieces_escapes]
    simp [assemble_chars]
  | none =>
    refine ⟨_, rfl, ?_⟩
    have hd : hexValue? 'd' = some 13 := by decide
    have h8 : hexValue? '8' = some 8 := by decide
    have h0 : hexValue? '0' = some 0 := by decide
    simp [readString, readPieces, hd, h8, h0, Piece.ofUnit, prepend, assemble]

/-! ### Numbers -/

/-- The text does not go on with what could belong to a number. -/
def Closed (cs : List Char) : Prop :=
  ∀ c rest, cs = c :: rest → Digit.ofChar? c = none ∧ c ≠ '.' ∧ c ≠ 'e' ∧ c ≠ 'E'

theorem Closed.apart {cs : List Char} (h : Closed cs) : Apart cs := fun c rest e => (h c rest e).1

theorem closed_nil : Closed [] := fun _ _ h => nomatch h

theorem closed_cons {c : Char} {cs : List Char} (hd : Digit.ofChar? c = none) (hp : c ≠ '.')
    (he : c ≠ 'e') (hE : c ≠ 'E') : Closed (c :: cs) := by
  rintro _ _ ⟨⟩
  exact ⟨hd, hp, he, hE⟩

theorem readDigits_toChars {ds : List Digit} (hne : ds ≠ []) {rest : List Char} (h : Apart rest) :
    readDigits (Digit.toChars ds ++ rest) = .ok (ds, rest) := by
  obtain ⟨d, ds, rfl⟩ := List.exists_cons_of_ne_nil hne
  rw [readDigits, span_toChars _ h]

theorem readWhole_ofNat (n : Nat) {rest : List Char} (h : Apart rest) :
    readWhole (Digit.toChars (Digit.ofNat n) ++ rest) = .ok (n, rest) := by
  obtain ⟨d, ds, hds⟩ := List.exists_cons_of_ne_nil (Digit.ofNat_ne_nil n)
  have hv : Digit.toNat (d :: ds) = n := by rw [← hds, Digit.toNat_ofNat]
  rw [readWhole, readDigits_toChars (Digit.ofNat_ne_nil n) h, hds]
  by_cases hd : d.val = 0
  · have := Digit.tail_eq_nil_of_ofNat hds hd
    simp [hd, this, ← hv]
  · simp [hd, hv]

/-- What follows the whole part of a number: a fraction, an exponent, and the rest of the text. -/
theorem apart_writeExponent (e : Option Int) {rest : List Char} (h : Closed rest) :
    Apart (writeExponent e ++ rest) := by
  cases e with
  | none => exact h.apart
  | some e => exact apart_cons (by decide)

theorem readFraction_write (ds : List Digit) (e : Option Int) {rest : List Char} (h : Closed rest) :
    readFraction ((if ds = [] then [] else '.' :: Digit.toChars ds) ++ (writeExponent e ++ rest)) =
      .ok (ds, writeExponent e ++ rest) := by
  have hx := apart_writeExponent e h
  by_cases hds : ds = []
  · subst hds
    simp only [if_true, List.nil_append]
    cases e with
    | some e => rfl
    | none => cases rest with
      | nil => rfl
      | cons c rest =>
        have hp : c ≠ '.' := (h c rest rfl).2.1
        show readFraction (c :: rest) = .ok ([], c :: rest)
        rw [readFraction.eq_def]
        split
        · next heq => injection heq with hc _; exact absurd hc hp
        · rfl
  · rw [if_neg hds, List.cons_append, readFraction, readDigits_toChars hds hx]

theorem readExponent_write (e : Option Int) {rest : List Char} (h : Closed rest) :
    readExponent (writeExponent e ++ rest) = .ok (e, rest) := by
  cases e with
  | none => cases rest with
    | nil => rfl
    | cons c rest =>
      obtain ⟨_, _, he, hE⟩ := h c rest rfl
      simp [writeExponent, readExponent, he, hE]
  | some e =>
    obtain ⟨n, hn⟩ : ∃ n, e.natAbs = n := ⟨_, rfl⟩
    have hd := readDigits_toChars (Digit.ofNat_ne_nil n) h.apart
    by_cases hneg : e < 0
    · simp [writeExponent, readExponent, hneg, hn, hd, Digit.toNat_ofNat]
      omega
    · simp [writeExponent, readExponent, hneg, hn, hd, Digit.toNat_ofNat]
      omega

/-- The characters of a number after its sign. -/
def numeralBody (n : Numeral) : List Char :=
  Digit.toChars (Digit.ofNat n.whole) ++ ((if n.fraction = [] then [] else '.' :: Digit.toChars n.fraction)
    ++ writeExponent n.exponent)

theorem writeNumeral_eq (n : Numeral) :
    writeNumeral n = (if n.negative then ['-'] else []) ++ numeralBody n := by
  simp only [writeNumeral, numeralBody, List.append_assoc]

theorem readNumeral_body (n : Numeral) {rest : List Char} (h : Closed rest) :
    readNumeral n.negative (numeralBody n ++ rest) = .ok (.number n, rest) := by
  have hx := apart_writeExponent n.exponent h
  have hf : Apart ((if n.fraction = [] then [] else '.' :: Digit.toChars n.fraction)
      ++ (writeExponent n.exponent ++ rest)) := by
    by_cases hds : n.fraction = []
    · simpa [hds] using hx
    · rw [if_neg hds]
      exact apart_cons (by decide)
  have hw := readWhole_ofNat n.whole hf
  rw [numeralBody, List.append_assoc, List.append_assoc, readNumeral, hw]
  simp only [bind, Except.bind]
  rw [readFraction_write n.fraction n.exponent h]
  simp only
  rw [readExponent_write n.exponent h]

/-- A number after its sign starts with a digit. -/
theorem exists_numeralBody (n : Numeral) :
    ∃ (d : Digit) (cs : List Char), numeralBody n = Digit.toChar d :: cs := by
  obtain ⟨d, ds, -, h⟩ := Digit.exists_toChars_ofNat n.whole
  exact ⟨d, _, by rw [numeralBody, h, List.cons_append]⟩

/-! ### Blanks -/

theorem skipBlanks_replicate (n : Nat) (cs : List Char) :
    skipBlanks (List.replicate n ' ' ++ cs) = skipBlanks cs := by
  induction n with
  | zero => rfl
  | succ n ih => simpa [List.replicate_succ, skipBlanks] using ih

/-- The line break before an item is passed over. -/
theorem skipBlanks_lineBreak (l : Layout) (depth : Nat) (cs : List Char) :
    skipBlanks (l.lineBreak depth ++ cs) = skipBlanks cs := by
  cases l with
  | compact => rfl
  | pretty => simpa [Layout.lineBreak, skipBlanks] using skipBlanks_replicate (2 * depth) cs

/-- What stands between a name and its value is a colon and maybe a blank. -/
theorem exists_colon (l : Layout) :
    ∃ bs, l.colon = ':' :: bs ∧ ∀ cs, skipBlanks (bs ++ cs) = skipBlanks cs := by
  cases l with
  | compact => exact ⟨[], rfl, fun _ => rfl⟩
  | pretty => exact ⟨[' '], rfl, fun cs => by simp [skipBlanks]⟩

/-- A value does not start with a blank, nor as an array or object ends. -/
def Starts (c : Char) : Prop := (∀ cs, skipBlanks (c :: cs) = c :: cs) ∧ c ≠ ']' ∧ c ≠ '\x7d'

theorem starts_of {c : Char} (h : ¬(c = ' ' ∨ c = '\t' ∨ c = '\n' ∨ c = '\r')) (h1 : c ≠ ']')
    (h2 : c ≠ '\x7d') : Starts c :=
  ⟨fun _ => by rw [skipBlanks, if_neg h], h1, h2⟩

theorem starts_toChar : ∀ d : Digit, ¬(Digit.toChar d = ' ' ∨ Digit.toChar d = '\t' ∨
    Digit.toChar d = '\n' ∨ Digit.toChar d = '\r') ∧ Digit.toChar d ≠ ']' ∧
    Digit.toChar d ≠ '\x7d' := by decide

theorem toChar_ne : ∀ d : Digit, Digit.toChar d ≠ 'n' ∧ Digit.toChar d ≠ 't' ∧
    Digit.toChar d ≠ 'f' ∧ Digit.toChar d ≠ '"' ∧ Digit.toChar d ≠ '-' := by decide

theorem exists_write (l : Layout) (depth : Nat) (j : Json) :
    ∃ c cs, write l depth j = c :: cs ∧ Starts c := by
  cases j with
  | null => exact ⟨_, _, rfl, starts_of (by decide) (by decide) (by decide)⟩
  | bool b => cases b <;> exact ⟨_, _, rfl, starts_of (by decide) (by decide) (by decide)⟩
  | number n =>
    obtain ⟨d, cs, hb⟩ := exists_numeralBody n
    rw [write, writeNumeral_eq, hb]
    cases n.negative with
    | true => exact ⟨_, _, rfl, starts_of (by decide) (by decide) (by decide)⟩
    | false =>
      obtain ⟨hd, h1, h2⟩ := starts_toChar d
      exact ⟨_, _, rfl, starts_of hd h1 h2⟩
  | string s =>
    obtain ⟨body, hb, -⟩ := readString_writeString s []
    exact ⟨_, body, by rw [write, hb], starts_of (by decide) (by decide) (by decide)⟩
  | array items => cases items <;> exact ⟨_, _, rfl, starts_of (by decide) (by decide) (by decide)⟩
  | object members =>
    rcases members with _ | ⟨⟨name, value⟩, members⟩ <;>
      exact ⟨_, _, rfl, starts_of (by decide) (by decide) (by decide)⟩

/-- Blanks in front make no difference to a value. -/
theorem readValue_congr {fuel : Nat} {cs cs' : List Char} (h : skipBlanks cs = skipBlanks cs') :
    readValue fuel cs = readValue fuel cs' := by
  cases fuel with
  | zero => rfl
  | succ fuel => simp only [readValue, h]

/-! ### Steps of the parser -/

theorem not_digit_open : (Digit.ofChar? '[').isSome = false ∧ (Digit.ofChar? '\x7b').isSome = false := by
  decide

theorem readValue_array {fuel : Nat} {c : Char} {cs cs' rest : List Char} {items : List Json}
    (hs : skipBlanks cs = c :: cs') (hc : c ≠ ']')
    (hi : readItems fuel (c :: cs') = .ok (items, rest)) :
    readValue (fuel + 1) ('[' :: cs) = .ok (.array items, rest) := by
  simp [readValue, skipBlanks, not_digit_open, hs, hc, hi, Except.map]

theorem readValue_object {fuel : Nat} {c : Char} {cs cs' rest : List Char}
    {members : List (Option String × Json)} (hs : skipBlanks cs = c :: cs') (hc : c ≠ '\x7d')
    (hm : readMembers fuel (c :: cs') = .ok (members, rest)) :
    readValue (fuel + 1) ('\x7b' :: cs) = .ok (.object members, rest) := by
  simp [readValue, skipBlanks, not_digit_open, hs, hc, hm, Except.map]

theorem readItems_last {fuel : Nat} {cs mid rest : List Char} {item : Json}
    (hv : readValue fuel cs = .ok (item, mid)) (hs : skipBlanks mid = ']' :: rest) :
    readItems (fuel + 1) cs = .ok ([item], rest) := by
  simp [readItems, hv, hs, bind, Except.bind]

theorem readItems_more {fuel : Nat} {cs mid next rest : List Char} {item : Json} {items : List Json}
    (hv : readValue fuel cs = .ok (item, mid)) (hs : skipBlanks mid = ',' :: next)
    (hi : readItems fuel next = .ok (items, rest)) :
    readItems (fuel + 1) cs = .ok (item :: items, rest) := by
  simp [readItems, hv, hs, hi, bind, Except.bind]

theorem readMembers_last {fuel : Nat} {cs body mid after rest : List Char} {name : Option String}
    {value : Json} (hc : skipBlanks cs = '"' :: body) (hn : readString body = .ok (name, ':' :: mid))
    (hv : readValue fuel mid = .ok (value, after)) (hs : skipBlanks after = '\x7d' :: rest) :
    readMembers (fuel + 1) cs = .ok ([(name, value)], rest) := by
  have hcolon : skipBlanks (':' :: mid) = ':' :: mid := by simp [skipBlanks]
  simp [readMembers, hc, hn, hcolon, hv, hs, bind, Except.bind]

theorem readMembers_more {fuel : Nat} {cs body mid after next rest : List Char}
    {name : Option String} {value : Json} {members : List (Option String × Json)}
    (hc : skipBlanks cs = '"' :: body) (hn : readString body = .ok (name, ':' :: mid))
    (hv : readValue fuel mid = .ok (value, after)) (hs : skipBlanks after = ',' :: next)
    (hm : readMembers fuel next = .ok (members, rest)) :
    readMembers (fuel + 1) cs = .ok ((name, value) :: members, rest) := by
  have hcolon : skipBlanks (':' :: mid) = ':' :: mid := by simp [skipBlanks]
  simp [readMembers, hc, hn, hcolon, hv, hs, hm, bind, Except.bind]

/-- Blanks in front make no difference to items and members either. -/
theorem readItems_congr {fuel : Nat} {cs cs' : List Char} (h : skipBlanks cs = skipBlanks cs') :
    readItems fuel cs = readItems fuel cs' := by
  cases fuel with
  | zero => rfl
  | succ fuel => simp only [readItems, readValue_congr h]

@[inherit_doc readItems_congr]
theorem readMembers_congr {fuel : Nat} {cs cs' : List Char} (h : skipBlanks cs = skipBlanks cs') :
    readMembers fuel cs = readMembers fuel cs' := by
  cases fuel with
  | zero => rfl
  | succ fuel => simp only [readMembers, h]

/-! ### Trees -/

/-- The items of an array, without the line breaks at its two ends. -/
def itemsText (l : Layout) (depth : Nat) : List Json → List Char
  | [] => []
  | item :: items => write l depth item ++ writeItems l depth items

/-- The members of an object, without the line breaks at its two ends. -/
def membersText (l : Layout) (depth : Nat) : List (Option String × Json) → List Char
  | [] => []
  | (name, value) :: members =>
    writeString name ++ (l.colon ++ (write l depth value ++ writeMembers l depth members))

theorem writeItems_cons (l : Layout) (depth : Nat) (item : Json) (items : List Json) :
    writeItems l depth (item :: items) = ',' :: (l.lineBreak depth ++ itemsText l depth (item :: items)) := by
  simp only [writeItems, itemsText, List.append_assoc]

theorem writeMembers_cons (l : Layout) (depth : Nat) (m : Option String × Json)
    (members : List (Option String × Json)) :
    writeMembers l depth (m :: members) =
      ',' :: (l.lineBreak depth ++ membersText l depth (m :: members)) := by
  simp only [writeMembers, membersText, List.append_assoc]

theorem write_array (l : Layout) (depth : Nat) (item : Json) (items : List Json) :
    write l depth (.array (item :: items)) = '[' :: (l.lineBreak (depth + 1) ++
      (itemsText l (depth + 1) (item :: items) ++ (l.lineBreak depth ++ [']']))) := by
  simp only [write, itemsText, List.append_assoc]

theorem write_object (l : Layout) (depth : Nat) (m : Option String × Json)
    (members : List (Option String × Json)) :
    write l depth (.object (m :: members)) = '\x7b' :: (l.lineBreak (depth + 1) ++
      (membersText l (depth + 1) (m :: members) ++ (l.lineBreak depth ++ ['\x7d']))) := by
  simp only [write, membersText, List.append_assoc]

theorem closed_mark : ∀ c ∈ [',', ']', '\x7d'], ∀ cs, Closed (c :: cs) := by
  intro c hc cs
  fin_cases hc <;> exact closed_cons (by decide) (by decide) (by decide) (by decide)

/-- After the items of an array, or the members of an object, a number is at its end. -/
theorem closed_lineBreak (l : Layout) (depth : Nat) {c : Char} (hc : c ∈ [',', ']', '\x7d'])
    (cs : List Char) : Closed (l.lineBreak depth ++ c :: cs) := by
  cases l with
  | compact => exact closed_mark c hc cs
  | pretty => exact closed_cons (by decide) (by decide) (by decide) (by decide)

theorem exists_itemsText (l : Layout) (depth : Nat) (item : Json) (items : List Json) :
    ∃ c cs, itemsText l depth (item :: items) = c :: cs ∧ Starts c := by
  obtain ⟨c, cs, h, hs⟩ := exists_write l depth item
  exact ⟨c, _, by rw [itemsText, h, List.cons_append], hs⟩

theorem skipBlanks_quote (cs : List Char) : skipBlanks ('"' :: cs) = '"' :: cs := by
  simp [skipBlanks]

theorem exists_membersText (l : Layout) (depth : Nat) (m : Option String × Json)
    (members : List (Option String × Json)) :
    ∃ cs, membersText l depth (m :: members) = '"' :: cs := by
  obtain ⟨name, value⟩ := m
  obtain ⟨body, hb, -⟩ := readString_writeString name []
  exact ⟨_, by rw [membersText, hb, List.cons_append]⟩

mutual

/-- A value is read back from its text. The induction is on the tree; every level and every item
takes one unit of fuel and at least one character. -/
theorem readValue_write (l : Layout) : ∀ (j : Json) (fuel depth : Nat) (rest : List Char),
    (write l depth j).length ≤ fuel → Closed rest →
    readValue fuel (write l depth j ++ rest) = .ok (j, rest)
  | .null, fuel, depth, rest, hf, _ => by
    obtain ⟨fuel, rfl⟩ : ∃ k, fuel = k + 1 := ⟨fuel - 1, by simp [write] at hf; omega⟩
    have he : expect ['u', 'l', 'l'] ('u' :: 'l' :: 'l' :: rest) = .ok rest := expect_append _ rest
    simp [write, readValue, skipBlanks, Except.map, he]
  | .bool true, fuel, depth, rest, hf, _ => by
    obtain ⟨fuel, rfl⟩ : ∃ k, fuel = k + 1 := ⟨fuel - 1, by simp [write] at hf; omega⟩
    have he : expect ['r', 'u', 'e'] ('r' :: 'u' :: 'e' :: rest) = .ok rest := expect_append _ rest
    simp [write, readValue, skipBlanks, Except.map, he]
  | .bool false, fuel, depth, rest, hf, _ => by
    obtain ⟨fuel, rfl⟩ : ∃ k, fuel = k + 1 := ⟨fuel - 1, by simp [write] at hf; omega⟩
    have he : expect ['a', 'l', 's', 'e'] ('a' :: 'l' :: 's' :: 'e' :: rest) = .ok rest :=
      expect_append _ rest
    simp [write, readValue, skipBlanks, Except.map, he]
  | .number n, fuel, depth, rest, hf, hr => by
    obtain ⟨d, cs, hb⟩ := exists_numeralBody n
    have hread := readNumeral_body n hr
    rw [write, writeNumeral_eq] at hf ⊢
    obtain ⟨fuel, rfl⟩ : ∃ k, fuel = k + 1 := ⟨fuel - 1, by rw [hb] at hf; simp at hf; omega⟩
    cases hn : n.negative with
    | true =>
      rw [hn] at hread
      simp [readValue, skipBlanks, hread]
    | false =>
      rw [hn, hb] at hread
      obtain ⟨hd, -, -⟩ := starts_toChar d
      obtain ⟨h1, h2, h3, h4, h5⟩ := toChar_ne d
      rw [if_neg (by simp), List.nil_append, hb, List.cons_append]
      rw [List.cons_append] at hread
      simp only [readValue, skipBlanks, if_neg hd, if_neg h1, if_neg h2, if_neg h3, if_neg h4,
        if_neg h5, Digit.ofChar?_toChar, Option.isSome_some, if_true, hread]
  | .string s, fuel, depth, rest, hf, _ => by
    obtain ⟨body, hb, hread⟩ := readString_writeString s rest
    rw [write, hb] at hf ⊢
    obtain ⟨fuel, rfl⟩ : ∃ k, fuel = k + 1 := ⟨fuel - 1, by simp at hf; omega⟩
    simp [readValue, skipBlanks, hread, Except.map]
  | .array [], fuel, depth, rest, hf, _ => by
    obtain ⟨fuel, rfl⟩ : ∃ k, fuel = k + 1 := ⟨fuel - 1, by simp [write] at hf; omega⟩
    simp [write, readValue, skipBlanks, not_digit_open]
  | .array (item :: items), fuel, depth, rest, hf, _ => by
    rw [write_array] at hf ⊢
    obtain ⟨fuel, rfl⟩ : ∃ k, fuel = k + 1 := ⟨fuel - 1, by simp at hf; omega⟩
    have hi := readItems_write l (item :: items) fuel (depth + 1) depth rest (by simp)
      (by simp at hf; omega)
    obtain ⟨c, cs, hc, hs, hne, -⟩ := exists_itemsText l (depth + 1) item items
    rw [hc, List.cons_append] at hi
    have hskip := skipBlanks_lineBreak l (depth + 1) (c :: (cs ++ (l.lineBreak depth ++ ']' :: rest)))
    rw [hs] at hskip
    simpa [hc] using readValue_array hskip hne hi
  | .object [], fuel, depth, rest, hf, _ => by
    obtain ⟨fuel, rfl⟩ : ∃ k, fuel = k + 1 := ⟨fuel - 1, by simp [write] at hf; omega⟩
    simp [write, readValue, skipBlanks, not_digit_open]
  | .object (m :: members), fuel, depth, rest, hf, _ => by
    rw [write_object] at hf ⊢
    obtain ⟨fuel, rfl⟩ : ∃ k, fuel = k + 1 := ⟨fuel - 1, by simp at hf; omega⟩
    have hm := readMembers_write l (m :: members) fuel (depth + 1) depth rest (by simp)
      (by simp at hf; omega)
    obtain ⟨cs, hc⟩ := exists_membersText l (depth + 1) m members
    rw [hc, List.cons_append] at hm
    have hskip := skipBlanks_lineBreak l (depth + 1) ('"' :: (cs ++ (l.lineBreak depth ++ '\x7d' :: rest)))
    rw [skipBlanks_quote] at hskip
    simpa [hc] using readValue_object hskip (by decide) hm

/-- The items of an array are read back up to its closing bracket. -/
theorem readItems_write (l : Layout) : ∀ (items : List Json) (fuel depth d : Nat) (rest : List Char),
    items ≠ [] → (itemsText l depth items).length < fuel →
    readItems fuel (itemsText l depth items ++ (l.lineBreak d ++ ']' :: rest)) = .ok (items, rest)
  | [], _, _, _, _, h, _ => absurd rfl h
  | [item], fuel, depth, d, rest, _, hf => by
    obtain ⟨fuel, rfl⟩ : ∃ k, fuel = k + 1 := ⟨fuel - 1, by omega⟩
    have hv := readValue_write l item fuel depth (l.lineBreak d ++ ']' :: rest)
      (by simp [itemsText, writeItems] at hf; omega) (closed_lineBreak l d (by simp) rest)
    have hs : skipBlanks (l.lineBreak d ++ ']' :: rest) = ']' :: rest := by
      rw [skipBlanks_lineBreak]
      simp [skipBlanks]
    simpa [itemsText, writeItems] using readItems_last hv hs
  | item :: item' :: items, fuel, depth, d, rest, _, hf => by
    obtain ⟨fuel, rfl⟩ : ∃ k, fuel = k + 1 := ⟨fuel - 1, by omega⟩
    rw [itemsText, writeItems_cons] at hf ⊢
    have hi := readItems_write l (item' :: items) fuel depth d rest (by simp)
      (by simp at hf; omega)
    have hv := readValue_write l item fuel depth
      (',' :: (l.lineBreak depth ++ (itemsText l depth (item' :: items) ++ (l.lineBreak d ++ ']' :: rest))))
      (by simp at hf; omega) (closed_mark ',' (by simp) _)
    rw [← readItems_congr (skipBlanks_lineBreak l depth _)] at hi
    simpa using readItems_more hv (by simp [skipBlanks]) hi

/-- The members of an object are read back up to its closing brace. -/
theorem readMembers_write (l : Layout) : ∀ (members : List (Option String × Json))
    (fuel depth d : Nat) (rest : List Char),
    members ≠ [] → (membersText l depth members).length < fuel →
    readMembers fuel (membersText l depth members ++ (l.lineBreak d ++ '\x7d' :: rest)) =
      .ok (members, rest)
  | [], _, _, _, _, h, _ => absurd rfl h
  | [(name, value)], fuel, depth, d, rest, _, hf => by
    obtain ⟨fuel, rfl⟩ : ∃ k, fuel = k + 1 := ⟨fuel - 1, by omega⟩
    obtain ⟨bs, hcolon, hbs⟩ := exists_colon l
    rw [membersText, hcolon] at hf ⊢
    obtain ⟨body, hb, hn⟩ := readString_writeString name
      (':' :: (bs ++ (write l depth value ++ (l.lineBreak d ++ '\x7d' :: rest))))
    have hv := readValue_write l value fuel depth (l.lineBreak d ++ '\x7d' :: rest)
      (by simp [writeMembers] at hf; omega) (closed_lineBreak l d (by simp) rest)
    rw [← readValue_congr (hbs _)] at hv
    have hs : skipBlanks (l.lineBreak d ++ '\x7d' :: rest) = '\x7d' :: rest := by
      rw [skipBlanks_lineBreak]
      simp [skipBlanks]
    simpa [hb, writeMembers] using readMembers_last (skipBlanks_quote _) hn hv hs
  | (name, value) :: m :: members, fuel, depth, d, rest, _, hf => by
    obtain ⟨fuel, rfl⟩ : ∃ k, fuel = k + 1 := ⟨fuel - 1, by omega⟩
    obtain ⟨bs, hcolon, hbs⟩ := exists_colon l
    rw [membersText, writeMembers_cons, hcolon] at hf ⊢
    have hm := readMembers_write l (m :: members) fuel depth d rest (by simp) (by simp at hf; omega)
    obtain ⟨body, hb, hn⟩ := readString_writeString name
      (':' :: (bs ++ (write l depth value ++ (',' :: (l.lineBreak depth ++
        (membersText l depth (m :: members) ++ (l.lineBreak d ++ '\x7d' :: rest)))))))
    have hv := readValue_write l value fuel depth
      (',' :: (l.lineBreak depth ++ (membersText l depth (m :: members) ++ (l.lineBreak d ++ '\x7d' :: rest))))
      (by simp at hf; omega) (closed_mark ',' (by simp) _)
    rw [← readValue_congr (hbs _)] at hv
    rw [← readMembers_congr (skipBlanks_lineBreak l depth _)] at hm
    simpa [hb] using readMembers_more (skipBlanks_quote _) hn hv (by simp [skipBlanks]) hm

end

/-- **Every tree is read back from its text**, whichever way the text is laid out. -/
theorem parse_render (l : Layout) (j : Json) : parse (j.render l) = .ok j := by
  have hf : (write l 0 j).length ≤ 2 * (write l 0 j).length + 2 := by omega
  have h := readValue_write l j _ 0 [] hf closed_nil
  rw [List.append_nil] at h
  simp [parse, render, h, skipBlanks]

end WalletHub.Json
