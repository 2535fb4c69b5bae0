import WalletHub.Config
import WalletHub.Proofs.Text.Digits
import WalletHub.Proofs.Text.Trim
import WalletHub.Text.Fold

/-!
# What the variables of a configuration mean

Each setting has a grammar, which says what texts set it, and to what, and what is logged about the other texts
(`Grammar`). A number is written by digits after an optional plus sign (`Numeral`). Where a text writes none, or
one that needs more than 64 bits, its first fault from the left is logged (`Faulty`). That the reader of numbers
finds just these is `readNumber_eq_iff`: every text is a number of 64 bits or has a fault, and what has been
found is what is read.

The grammars determine the settings and the warnings, and a setting depends on the text of its own variable alone
(`ofLookup_exact`).

## What is proved

* `readDigits_toChars`, `Stops.readDigits_eq`, `Ends.readDigits_eq`: what the reader makes of digits up to the
  first fault.
* `exists_ends`, `exists_means`: every text means something.
* `readNumber_eq_iff`: and what it means is what is read.
* `flagWords_apart`, `flag?_eq_some_iff`: the words for a flag, no one of which stands for both values.
* `flag_eq_iff`, `millis_eq_iff`, `directory_eq_iff`: the three kinds of setting give
  what their grammars say.
* `ofLookup_exact`: the settings and the warnings of any environment, and that a setting depends on no other
  variable.
* `mixed_settings`: an instance with white space, a number that is too large, and a variable that is not set.
-/

namespace WalletHub.Config

/-! ### The grammar of numbers -/

/-- One or more digits, with a plus sign in front or not, and the number that they write. -/
inductive Numeral : List Char → Nat → Prop where
  | digits {ds : List Digit} (nonempty : ds ≠ []) : Numeral (Digit.toChars ds) (Digit.toNat ds)
  | signed {ds : List Digit} (nonempty : ds ≠ []) : Numeral ('+' :: Digit.toChars ds) (Digit.toNat ds)

/-- What follows the plus sign at the start of a text, or the whole text if it does not start with one. -/
inductive Unsigned : List Char → List Char → Prop where
  | plus (cs : List Char) : Unsigned ('+' :: cs) cs
  | bare {cs : List Char} (first : ∀ rest : List Char, cs ≠ '+' :: rest) : Unsigned cs cs

/-- The first fault among characters that should be digits after a number. -/
inductive Stops (n : Nat) : List Char → NumberFault → Prop where
  /-- A character that is no digit comes before the number is too large. -/
  | digit {ds : List Digit} {c : Char} {rest : List Char} (fits : Digit.extend n ds < 2 ^ 64)
      (other : ∀ d : Digit, d.toChar ≠ c) : Stops n (Digit.toChars ds ++ c :: rest) .invalidDigit
  /-- The number becomes too large by a digit. -/
  | size {ds : List Digit} {d : Digit} {rest : List Char} (fits : Digit.extend n ds < 2 ^ 64)
      (large : 2 ^ 64 ≤ Digit.extend n (ds ++ [d])) : Stops n (Digit.toChars (ds ++ [d]) ++ rest) .tooLarge

/-- The first fault of a text that should be a number. -/
inductive Faulty : List Char → NumberFault → Prop where
  | nothing : Faulty [] .empty
  | sign : Faulty ['+'] .invalidDigit
  | body {cs body : List Char} {fault : NumberFault} (text : Unsigned cs body) (stops : Stops 0 body fault) :
      Faulty cs fault

/-! ### Reading digits -/

/-- How digits after a number go on: to their end, or to the first fault. -/
inductive Ends (n : Nat) : List Char → Except NumberFault Nat → Prop where
  | whole {ds : List Digit} (fits : Digit.extend n ds < 2 ^ 64) : Ends n (Digit.toChars ds) (.ok (Digit.extend n ds))
  | fault {cs : List Char} {fault : NumberFault} (stops : Stops n cs fault) : Ends n cs (.error fault)

variable {n : Nat} {cs body : List Char} {result : Except NumberFault Nat}

theorem readDigits_toChar (n : Nat) (d : Digit) (cs : List Char) : readDigits n (d.toChar :: cs) =
    if n * 10 + d.val < 2 ^ 64 then readDigits (n * 10 + d.val) cs else .error .tooLarge := by
  rw [readDigits, Digit.ofChar?_toChar]
  rfl

/-- Digits are read one after the other as long as the number is not too large. -/
theorem readDigits_toChars {ds : List Digit} (fits : Digit.extend n ds < 2 ^ 64) (rest : List Char) :
    readDigits n (Digit.toChars ds ++ rest) = readDigits (Digit.extend n ds) rest := by
  induction ds generalizing n with
  | nil => rfl
  | cons d ds ih =>
    have hnext : n * 10 + d.val < 2 ^ 64 := Nat.lt_of_le_of_lt (Digit.le_extend (n * 10 + d.val) ds) fits
    refine (readDigits_toChar n d (Digit.toChars ds ++ rest)).trans ?_
    rw [if_pos hnext]
    exact ih fits

theorem Stops.readDigits_eq {fault : NumberFault} (h : Stops n cs fault) : readDigits n cs = .error fault := by
  cases h with
  | digit fits other => rw [readDigits_toChars fits, readDigits, Digit.ofChar?_eq_none other]
  | @size ds d rest fits large =>
    rw [Digit.extend_append] at large
    rw [Digit.toChars, List.map_append, List.append_assoc]
    exact (readDigits_toChars fits _).trans ((readDigits_toChar _ d rest).trans (if_neg (Nat.not_lt.mpr large)))

theorem Ends.readDigits_eq (h : Ends n cs result) : readDigits n cs = result := by
  cases h with
  | @whole ds fits =>
    have hread := readDigits_toChars fits []
    rw [List.append_nil] at hread
    exact hread
  | fault stops => exact stops.readDigits_eq

theorem Ends.cons {d : Digit} (h : Ends (n * 10 + d.val) cs result) : Ends n (d.toChar :: cs) result := by
  cases h with
  | @whole ds fits => exact @Ends.whole n (d :: ds) fits
  | fault stops =>
    cases stops with
    | @digit ds _ _ fits other => exact .fault (@Stops.digit n (d :: ds) _ _ fits other)
    | @size ds _ _ fits large => exact .fault (@Stops.size n (d :: ds) _ _ fits large)

/-- Digits after a number that is not too large come to an end. Only while it is not is there a next character to
look at. -/
theorem exists_ends (fits : n < 2 ^ 64) (cs : List Char) : ∃ result, Ends n cs result := by
  induction cs generalizing n with
  | nil => exact ⟨.ok n, @Ends.whole n [] fits⟩
  | cons c cs ih =>
    by_cases hdigit : ∃ d : Digit, d.toChar = c
    · obtain ⟨d, rfl⟩ := hdigit
      by_cases hnext : n * 10 + d.val < 2 ^ 64
      · obtain ⟨result, h⟩ := ih hnext
        exact ⟨result, h.cons⟩
      · exact ⟨_, .fault (@Stops.size n [] _ _ fits (Nat.not_lt.mp hnext))⟩
    · exact ⟨_, .fault (@Stops.digit n [] _ _ fits (not_exists.mp hdigit))⟩

/-! ### Reading numbers -/

/-- What a text is for a result of reading it as a number. -/
def Means (cs : List Char) : Except NumberFault Nat → Prop
  | .ok n => Numeral cs n ∧ n ≤ 2 ^ 64 - 1
  | .error fault => Faulty cs fault

/-- Digits do not start with a sign. -/
theorem toChars_unsigned {ds : List Digit} : Unsigned (Digit.toChars ds) (Digit.toChars ds) := by
  refine .bare fun rest heq => ?_
  have hplus : ∀ d : Digit, d.toChar ≠ '+' := by decide
  cases ds with
  | nil => exact nomatch heq
  | cons d ds => exact hplus d (List.cons.inj heq).1

/-- The characters of a text are read as digits after its sign, unless there are none. -/
theorem Unsigned.readNumber_eq (text : Unsigned cs body) (nonempty : body ≠ []) :
    readNumber cs = readDigits 0 body := by
  cases text with
  | plus =>
    obtain ⟨c, rest, rfl⟩ := List.exists_cons_of_ne_nil nonempty
    rfl
  | bare first =>
    unfold readNumber
    split
    · exact absurd rfl nonempty
    · exact absurd rfl (first [])
    · next rest _ => exact absurd rfl (first rest)
    · rfl

theorem Unsigned.means (text : Unsigned cs body) (nonempty : body ≠ []) (h : Ends 0 body result) :
    Means cs result := by
  cases h with
  | @whole ds fits =>
    have hds : ds ≠ [] := by
      rintro rfl
      exact nonempty rfl
    refine ⟨?_, Nat.le_sub_one_of_lt fits⟩
    cases text with
    | plus => exact .signed hds
    | bare => exact .digits hds
  | fault stops => exact .body text stops

/-- Every text is a number of 64 bits or has a fault. -/
theorem exists_means (cs : List Char) : ∃ result, Means cs result := by
  by_cases hsign : ∃ rest, cs = '+' :: rest
  · obtain ⟨rest, rfl⟩ := hsign
    by_cases hrest : rest = []
    · exact ⟨.error .invalidDigit, hrest ▸ .sign⟩
    · obtain ⟨result, h⟩ := exists_ends (Nat.two_pow_pos 64) rest
      exact ⟨result, (Unsigned.plus rest).means hrest h⟩
  · by_cases hcs : cs = []
    · exact ⟨.error .empty, hcs ▸ .nothing⟩
    · obtain ⟨result, h⟩ := exists_ends (Nat.two_pow_pos 64) cs
      exact ⟨result, (Unsigned.bare (not_exists.mp hsign)).means hcs h⟩

theorem Stops.ne_nil {fault : NumberFault} (h : Stops n cs fault) : cs ≠ [] := by
  cases h with
  | digit => exact List.append_ne_nil_of_right_ne_nil _ (List.cons_ne_nil _ _)
  | size =>
    rw [Digit.toChars, List.map_append, List.append_assoc]
    exact List.append_ne_nil_of_right_ne_nil _ (List.cons_ne_nil _ _)

theorem Means.readNumber_eq (h : Means cs result) : readNumber cs = result := by
  cases result with
  | ok n =>
    obtain ⟨hnumeral, hsize⟩ := h
    have hread {ds : List Digit} (nonempty : ds ≠ []) (text : Unsigned cs (Digit.toChars ds))
        (hsize : Digit.toNat ds ≤ 2 ^ 64 - 1) : readNumber cs = .ok (Digit.toNat ds) := by
      rw [text.readNumber_eq (mt List.map_eq_nil_iff.mp nonempty)]
      exact (Ends.whole (n := 0) (by rw [Digit.toNat] at hsize; omega)).readDigits_eq
    cases hnumeral with
    | digits nonempty => exact hread nonempty toChars_unsigned hsize
    | signed nonempty => exact hread nonempty (.plus _) hsize
  | error fault =>
    cases h with
    | nothing => rfl
    | sign => rfl
    | body text stops => exact (text.readNumber_eq stops.ne_nil).trans stops.readDigits_eq

/-- **What is read of a text is what it means.** -/
theorem readNumber_eq_iff : readNumber cs = result ↔ Means cs result := by
  refine ⟨?_, Means.readNumber_eq⟩
  rintro rfl
  obtain ⟨result, h⟩ := exists_means cs
  rwa [h.readNumber_eq]

example : readNumber "+018446744073709551616 ms".toList = .error .tooLarge := by decide +kernel
example : readNumber "018446744073709551615 ms".toList = .error .invalidDigit := by decide +kernel

/-! ### Flags -/

/-- The words for each value of a flag. -/
def flagWords : Bool → List String
  | true => ["1", "true", "yes", "on"]
  | false => ["0", "false", "no", "off"]

/-- A text is one of the words for a value, up to the white space around it and the case of its letters. -/
def Says (value : String) (b : Bool) : Prop := ∃ word, Text.Surrounds value word ∧ Text.fold word ∈ flagWords b

/-- No word stands for both values. -/
theorem flagWords_apart : ∀ word ∈ flagWords false, word ∉ flagWords true := by decide +kernel

theorem flag?_eq_some_iff (value : String) (b : Bool) : flag? value = some b ↔ Says value b := by
  have hword : Says value b ↔ Text.fold (Text.trim value) ∈ flagWords b := by
    simp only [Says, ← Text.trim_eq_iff, exists_eq_left']
  have hflag : flag? value = if Text.fold (Text.trim value) ∈ flagWords true then some true
      else if Text.fold (Text.trim value) ∈ flagWords false then some false else none := by
    simp only [flag?, List.contains_iff_mem]
    rfl
  rw [hword, hflag]
  cases b with
  | true => split <;> simp_all
  | false =>
    have hapart := flagWords_apart (Text.fold (Text.trim value))
    split <;> simp_all

/-! ### Variables -/

/-- What the texts of a variable mean for a setting. -/
structure Grammar (α : Type) where
  /-- A text sets the setting to a value. -/
  sets : String → α → Prop
  /-- What is logged about a variable with a name and a text that sets nothing. -/
  logs : String → String → List Warning → Prop

namespace Grammar

variable {α : Type}

/-- A flag is one of eight words. -/
def flag : Grammar Bool where
  sets := Says
  logs name value warnings := warnings = [.invalidFlag name value]

/-- A number has at most 64 bits. -/
def number : Grammar Nat where
  sets value n := ∃ text, Text.Surrounds value text ∧ Numeral text.toList n ∧ n ≤ 2 ^ 64 - 1
  logs name value warnings := ∃ text fault, Text.Surrounds value text ∧ Faulty text.toList fault ∧
    warnings = [.invalidNumber name value fault]

/-- A directory is any text that is more than white space, and nothing is logged about others. -/
def directory : Grammar String where
  sets value path := Text.Surrounds value path ∧ path ≠ ""
  logs _ _ warnings := warnings = []

/-- The setting that a variable gives, and the warnings about it, by the text of the variable. -/
inductive Gives (g : Grammar α) (name : String) (default : α) : Option String → α → List Warning → Prop where
  | missing : Gives g name default none default []
  | taken {value : String} {a : α} (sets : g.sets value a) : Gives g name default (some value) a []
  | rejected {value : String} {warnings : List Warning} (unset : ∀ a, ¬g.sets value a)
      (logs : g.logs name value warnings) : Gives g name default (some value) default warnings

variable {g : Grammar α} {name value : String} {default a b : α} {warnings : List Warning}

theorem gives_none : (default, []) = (a, warnings) ↔ g.Gives name default none a warnings := by
  constructor
  · rintro ⟨⟩
    exact .missing
  · rintro ⟨⟩
    rfl

/-- A variable is taken if its text sets a value, and no other. -/
theorem gives_of_sets (sets : ∀ a, g.sets value a ↔ b = a) :
    (b, []) = (a, warnings) ↔ g.Gives name default (some value) a warnings := by
  constructor
  · intro heq
    obtain ⟨rfl, rfl⟩ := Prod.mk.inj heq
    exact .taken ((sets b).mpr rfl)
  · rintro (_ | hsets | ⟨unset, -⟩)
    · rw [(sets a).mp hsets]
    · exact absurd ((sets b).mpr rfl) (unset b)

/-- A variable with a text that sets nothing leaves the setting as it was, and something is logged. -/
theorem gives_of_unset (unset : ∀ a, ¬g.sets value a) {logged : List Warning}
    (logs : ∀ warnings, g.logs name value warnings ↔ warnings = logged) :
    (default, logged) = (a, warnings) ↔ g.Gives name default (some value) a warnings := by
  constructor
  · intro heq
    obtain ⟨rfl, rfl⟩ := Prod.mk.inj heq
    exact .rejected unset ((logs logged).mpr rfl)
  · rintro (_ | hsets | ⟨-, hlogs⟩)
    · exact absurd hsets (unset a)
    · rw [(logs warnings).mp hlogs]

end Grammar

/-! ### The settings -/

variable {lookup : String → Option String} {name : String} {warnings : List Warning}

theorem flag_eq_iff {default b : Bool} :
    flag lookup name default = (b, warnings) ↔ Grammar.flag.Gives name default (lookup name) b warnings := by
  rw [flag]
  cases lookup name with
  | none => exact Grammar.gives_none
  | some value =>
    have hsets (a : Bool) : Grammar.flag.sets value a ↔ flag? value = some a := (flag?_eq_some_iff value a).symm
    dsimp only
    cases hflag : flag? value with
    | none =>
      have hunset (a : Bool) : ¬Grammar.flag.sets value a := by simp [hsets, hflag]
      exact Grammar.gives_of_unset hunset fun _ => Iff.rfl
    | some b =>
      have hone (a : Bool) : Grammar.flag.sets value a ↔ b = a := by simp [hsets, hflag]
      exact Grammar.gives_of_sets hone

theorem millis_eq_iff {default n : Nat} :
    millis lookup name default = (n, warnings) ↔ Grammar.number.Gives name default (lookup name) n warnings := by
  rw [millis]
  cases lookup name with
  | none => exact Grammar.gives_none
  | some value =>
    have hsets (m : Nat) : Grammar.number.sets value m ↔ readNumber (Text.trim value).toList = .ok m := by
      simp only [Grammar.number, ← Text.trim_eq_iff, exists_eq_left', readNumber_eq_iff, Means]
    dsimp only
    cases hread : readNumber (Text.trim value).toList with
    | ok m =>
      have hone (k : Nat) : Grammar.number.sets value k ↔ m = k := by simp [hsets, hread]
      exact Grammar.gives_of_sets hone
    | error fault =>
      have hunset (m : Nat) : ¬Grammar.number.sets value m := by simp [hsets, hread]
      refine Grammar.gives_of_unset hunset fun logged => ?_
      have hfault (other : NumberFault) : Faulty (Text.trim value).toList other ↔ fault = other := by
        have hmeans : readNumber (Text.trim value).toList = .error other ↔ Faulty (Text.trim value).toList other :=
          readNumber_eq_iff
        rw [← hmeans, hread, Except.error.injEq]
      simp only [Grammar.number, ← Text.trim_eq_iff, exists_and_left, exists_eq_left', hfault]

theorem directory_eq_iff {default path : String} :
    directory lookup name default = path ↔ Grammar.directory.Gives name default (lookup name) path [] := by
  have hpair {a b : String} : a = b ↔ (a, ([] : List Warning)) = (b, []) := by simp
  rw [directory]
  cases lookup name with
  | none => exact hpair.trans Grammar.gives_none
  | some value =>
    have hsets (a : String) : Grammar.directory.sets value a ↔ Text.trim value = a ∧ a ≠ "" := by
      simp only [Grammar.directory, ← Text.trim_eq_iff]
    rw [Option.map_some]
    by_cases hempty : Text.trim value = ""
    · have hunset (a : String) : ¬Grammar.directory.sets value a := by
        rw [hsets, hempty]
        rintro ⟨rfl, hne⟩
        exact hne rfl
      simp only [if_pos hempty]
      exact hpair.trans (Grammar.gives_of_unset hunset fun _ => Iff.rfl)
    · have hone (a : String) : Grammar.directory.sets value a ↔ Text.trim value = a := by
        rw [hsets]
        exact ⟨And.left, fun heq => ⟨heq, heq ▸ hempty⟩⟩
      simp only [if_neg hempty]
      exact hpair.trans (Grammar.gives_of_sets hone)

theorem ofLookup_eq (lookup : String → Option String) : ofLookup lookup =
    (⟨directory lookup directoryName default.storageDirectory, (flag lookup mainnetName default.mainnet).1,
        (millis lookup throttleName default.throttle).1,
        (millis lookup transferThrottleName default.transferThrottle).1⟩,
      (flag lookup mainnetName default.mainnet).2 ++ (millis lookup throttleName default.throttle).2 ++
        (millis lookup transferThrottleName default.transferThrottle).2) := rfl

/-- **Each variable gives its setting**, or leaves the default, and the warnings about it, which stand in the order
flag, throttle and throttle of transfers. Where only other variables differ the setting is the same. -/
theorem ofLookup_exact (lookup : String → Option String) :
    (∀ (config : Config) (warnings : List Warning), ofLookup lookup = (config, warnings) ↔
      Grammar.directory.Gives directoryName default.storageDirectory (lookup directoryName)
        config.storageDirectory [] ∧
      ∃ flagWarnings throttleWarnings transferWarnings : List Warning,
        Grammar.flag.Gives mainnetName default.mainnet (lookup mainnetName) config.mainnet flagWarnings ∧
        Grammar.number.Gives throttleName default.throttle (lookup throttleName) config.throttle throttleWarnings ∧
        Grammar.number.Gives transferThrottleName default.transferThrottle (lookup transferThrottleName)
          config.transferThrottle transferWarnings ∧
        warnings = flagWarnings ++ throttleWarnings ++ transferWarnings) ∧
    [directoryName, mainnetName, throttleName, transferThrottleName].Nodup ∧
    ∀ lookup' : String → Option String,
      (lookup directoryName = lookup' directoryName →
        (ofLookup lookup).1.storageDirectory = (ofLookup lookup').1.storageDirectory) ∧
      (lookup mainnetName = lookup' mainnetName → (ofLookup lookup).1.mainnet = (ofLookup lookup').1.mainnet) ∧
      (lookup throttleName = lookup' throttleName → (ofLookup lookup).1.throttle = (ofLookup lookup').1.throttle) ∧
      (lookup transferThrottleName = lookup' transferThrottleName →
        (ofLookup lookup).1.transferThrottle = (ofLookup lookup').1.transferThrottle) := by
  refine ⟨fun config warnings => ?_, by decide +kernel, fun lookup' => ⟨fun h => ?_, fun h => ?_, fun h => ?_,
    fun h => ?_⟩⟩
  · simp only [← directory_eq_iff, ← flag_eq_iff, ← millis_eq_iff]
    constructor
    · intro heq
      obtain ⟨rfl, rfl⟩ := Prod.mk.inj heq
      exact ⟨rfl, _, _, _, rfl, rfl, rfl, rfl⟩
    · rintro ⟨hdirectory, _, _, _, hflag, hthrottle, htransfer, rfl⟩
      rw [ofLookup_eq, hdirectory, hflag, hthrottle, htransfer]
  · simp only [ofLookup_eq, directory, h]
  · simp only [ofLookup_eq, flag, h]
  · simp only [ofLookup_eq, millis, h]
  · simp only [ofLookup_eq, millis, h]

/-- Three variables with white space or more digits than needed, and a number that is too large by one. -/
def mixed (name : String) : Option String :=
  if name = directoryName then some "\t "
  else if name = mainnetName then some " Yes\n"
  else if name = throttleName then some "+0020"
  else if name = transferThrottleName then some "18446744073709551616"
  else none

/-- The flag and the throttle are taken, and the throttle would be the same without the other variables. -/
theorem mixed_settings :
    ofLookup mixed = (⟨"./data/breadbox", true, 20, 300⟩,
      [.invalidNumber transferThrottleName "18446744073709551616" .tooLarge]) ∧
    Says " Yes\n" true ∧ Grammar.number.sets "+0020" 20 ∧
    (ofLookup fun name => if name = throttleName then mixed name else none).1.throttle = 20 := by
  have hmixed : ofLookup mixed = (⟨"./data/breadbox", true, 20, 300⟩,
      [.invalidNumber transferThrottleName "18446744073709551616" .tooLarge]) := by decide +kernel
  obtain ⟨hexact, -, halone⟩ := ofLookup_exact mixed
  obtain ⟨-, _, _, _, hflag, hthrottle, -, -⟩ := (hexact _ _).mp hmixed
  obtain ⟨-, -, hsame, -⟩ := halone fun name => if name = throttleName then mixed name else none
  refine ⟨hmixed, ?_, ?_, ?_⟩
  · have htext : mixed mainnetName = some " Yes\n" := by decide +kernel
    rw [htext] at hflag
    cases hflag with
    | taken sets => exact sets
  · have htext : mixed throttleName = some "+0020" := by decide +kernel
    rw [htext] at hthrottle
    cases hthrottle with
    | taken sets => exact sets
  · rw [← hsame (if_pos rfl).symm, hmixed]

end WalletHub.Config
