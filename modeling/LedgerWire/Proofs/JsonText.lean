import LedgerWire.Json.Reader
import Mathlib.Control.Basic
import Mathlib.Data.List.TakeWhile

/-!
Reading back the JSON that was written. The reader is followed along the text as it is written: it
is `Ready` where it stands between tokens, and `Settled` where at most a last word still has to end.
A value that is written where one may stand is taken for itself, so by induction on its structure
the whole text is. Floating-point numbers are left out: those that are not finite are written as null.
-/

namespace LedgerWire.Json

namespace Token

def Scan.tokens? : Scan → Option (List Token)
  | ⟨.between, done⟩ => some done
  | ⟨.word letters, done⟩ => (ofWord? letters.reverse).map (· :: done)
  | _ => none

theorem scan?_eq (text : List Char) :
    scan? text = (text.foldlM step ⟨.between, []⟩ >>= Scan.tokens?).map List.reverse := by
  unfold scan?
  cases text.foldlM step ⟨.between, []⟩ with
  | none => rfl
  | some scan =>
      obtain ⟨mode, done⟩ := scan
      cases mode with
      | word letters =>
          simp only [Option.bind_eq_bind, Option.bind_some, Scan.tokens?]
          cases ofWord? letters.reverse <;> rfl
      | _ => rfl

theorem step_of_tokens? {scan : Scan} {done : List Token} {c : Char}
    (settled : scan.tokens? = some done) (noLetter : isWordLetter c = false) :
    step scan c = startAt done c := by
  obtain ⟨mode, before⟩ := scan
  cases mode with
  | between =>
      cases settled
      rfl
  | word letters =>
      obtain ⟨token, read, rfl⟩ := Option.map_eq_some_iff.mp settled
      simp [step, noLetter, read]
  | text _ _ => cases settled
  | escape _ _ => cases settled
  | unicode _ _ _ _ => cases settled

section Words

variable {done : List Token} {word : List Char} {token : Token}

theorem startAt_of_isWordLetter {c : Char} (letter : isWordLetter c = true) :
    startAt done c = some ⟨.word [c], done⟩ := by
  unfold startAt
  split
  case h_8 =>
    rw [if_neg, if_pos letter]
    rintro (rfl | rfl | rfl | rfl) <;> exact absurd letter (by decide)
  all_goals exact absurd letter (by decide)

theorem foldlM_step_letters (before : List Char) (all : ∀ c ∈ word, isWordLetter c = true) :
    word.foldlM step ⟨.word before, done⟩ = some ⟨.word (word.reverse ++ before), done⟩ := by
  induction word generalizing before with
  | nil => rfl
  | cons c rest ih =>
      have first : step ⟨.word before, done⟩ c = some ⟨.word (c :: before), done⟩ := by
        simp [step, all c List.mem_cons_self]
      rw [List.foldlM_cons, first]
      simpa using ih (c :: before) fun c member => all c (List.mem_cons_of_mem _ member)

theorem foldlM_step_word (done : List Token) (all : ∀ c ∈ word, isWordLetter c = true)
    (read : ofWord? word = some token) :
    ∃ scan, word.foldlM step ⟨.between, done⟩ = some scan ∧
      scan.tokens? = some (token :: done) := by
  cases word with
  | nil => cases read
  | cons c rest =>
      have start : step ⟨.between, done⟩ c = some ⟨.word [c], done⟩ :=
        startAt_of_isWordLetter (all c List.mem_cons_self)
      refine ⟨⟨.word (c :: rest).reverse, done⟩, ?_, ?_⟩
      · rw [List.foldlM_cons, start]
        simpa using foldlM_step_letters [c] fun c member => all c (List.mem_cons_of_mem _ member)
      · simp [Scan.tokens?, read]

end Words

theorem hexValue?_hexDigit : ∀ value < 16, hexValue? (hexDigit value) = some value := by decide

theorem foldlM_step_escape (letters : List Char) (done : List Token) (c : Char) :
    (escape c).foldlM step ⟨.text letters none, done⟩ = some ⟨.text (c :: letters) none, done⟩ := by
  unfold escape
  split
  · rename_i quoted
    rcases quoted with rfl | rfl <;> rfl
  split
  · subst c
    rfl
  split
  · subst c
    rfl
  split
  · subst c
    rfl
  split
  · rename_i backspace
    obtain rfl : c = '\x08' := Char.toNat_inj.mp backspace
    rfl
  split
  · rename_i formFeed
    obtain rfl : c = '\x0c' := Char.toNat_inj.mp formFeed
    rfl
  split
  · rename_i control
    have high := hexValue?_hexDigit (c.toNat / 16) (by omega)
    have low := hexValue?_hexDigit (c.toNat % 16) (by omega)
    have zero : hexValue? '0' = some 0 := rfl
    have value : c.toNat / 16 * 16 + c.toNat % 16 = c.toNat := by omega
    have noSurrogate : ¬0xD800 ≤ c.toNat ∧ ¬0xDC00 ≤ c.toNat := by omega
    simp [step, high, low, zero, value, unit?, noSurrogate]
  · rename_i ordinary _ _ _ _ _ shown
    rw [not_or] at ordinary
    simp [step, ordinary, shown]

theorem foldlM_step_text (before : List Char) (done : List Token) (text : List Char) :
    (text.flatMap escape).foldlM step ⟨.text before none, done⟩ =
      some ⟨.text (text.reverse ++ before) none, done⟩ := by
  induction text generalizing before with
  | nil => rfl
  | cons c rest ih =>
      rw [List.flatMap_cons, List.foldlM_append, foldlM_step_escape]
      simpa using ih (c :: before)

theorem foldlM_step_quote (done : List Token) (text : String) :
    (quote text).toList.foldlM step ⟨.between, done⟩ =
      some ⟨.between, scalar (string text) :: done⟩ := by
  have opened : step ⟨.between, done⟩ '"' = some ⟨.text [] none, done⟩ := rfl
  rw [quote, String.toList_ofList, List.append_assoc, List.singleton_append, List.foldlM_cons,
    opened]
  simp [List.foldlM_append, foldlM_step_text, step]

section Numbers

variable {number : Nat}

theorem isDigit_of_mem {c : Char} (member : c ∈ Nat.toDigits 10 number) : isDigit c = true :=
  Nat.isDigit_of_mem_toDigits (by decide) (by decide) member

theorem isWordLetter_of_mem {c : Char} (member : c ∈ Nat.toDigits 10 number) :
    isWordLetter c = true := by
  have digit : c.isDigit = true := Nat.isDigit_of_mem_toDigits (by decide) (by decide) member
  simp [isWordLetter, Char.isAlphanum, digit]

theorem head?_toDigits (nonzero : number ≠ 0) : (Nat.toDigits 10 number).head? ≠ some '0' := by
  induction number using Nat.strongRecOn with
  | ind number ih =>
      by_cases small : number < 10
      · rw [Nat.toDigits_of_lt_base small]
        simpa using nonzero
      · rw [Nat.toDigits_of_base_le (by decide) (by omega), List.head?_append,
          Option.or_of_isSome (by simp [Nat.toDigits_ne_nil])]
        exact ih (number / 10) (by omega) (by omega)

theorem le_ofDigitChars (value : Nat) (digits : List Char) :
    value ≤ Nat.ofDigitChars 10 digits value := by
  induction digits generalizing value with
  | nil => simp
  | cons c rest ih =>
      have later := ih (10 * value + (c.toNat - '0'.toNat))
      rw [Nat.ofDigitChars_cons]
      omega

theorem appendDigits_eq {value : Nat} {digits : List Char}
    (fits : Nat.ofDigitChars 10 digits value < UInt64.size) :
    appendDigits value digits = (Nat.ofDigitChars 10 digits value, digits.length) := by
  induction digits generalizing value with
  | nil => simp [appendDigits]
  | cons c rest ih =>
      have longer : 10 * value + (c.toNat - '0'.toNat) = value * 10 + (c.toNat - 48) := by
        rw [Nat.mul_comm]
        rfl
      rw [Nat.ofDigitChars_cons, longer] at fits ⊢
      have bound := Nat.lt_of_le_of_lt (le_ofDigitChars _ rest) fits
      rw [appendDigits, if_pos bound, ih fits]
      rfl

theorem magnitude?_toDigits (negative : Bool) (fits : number < UInt64.size)
    (negatable : negative = true → number ≠ 0 ∧ 2 * number ≤ UInt64.size) :
    magnitude? negative (Nat.toDigits 10 number) =
      some (integer (if negative then -number else number)) := by
  have digits : ∀ c ∈ Nat.toDigits 10 number, isDigit c = true := fun _ => isDigit_of_mem
  have whole : (Nat.toDigits 10 number).takeWhile isDigit = Nat.toDigits 10 number :=
    List.takeWhile_eq_self_iff.mpr digits
  have nothingElse : (Nat.toDigits 10 number).dropWhile isDigit = [] :=
    List.dropWhile_eq_nil_iff.mpr digits
  have shape : Nat.toDigits 10 number ≠ [] ∧ ((Nat.toDigits 10 number).length = 1 ∨
      (Nat.toDigits 10 number).head? ≠ some '0') := by
    refine ⟨Nat.toDigits_ne_nil, ?_⟩
    by_cases zero : number = 0
    · subst zero
      exact .inl rfl
    · exact .inr (head?_toDigits zero)
  have value : Nat.ofDigitChars 10 (Nat.toDigits 10 number) 0 = number :=
    Nat.ofDigitChars_toDigits (by decide) (by decide)
  have appended : appendDigits 0 (Nat.toDigits 10 number) =
      (number, (Nat.toDigits 10 number).length) := by
    rw [appendDigits_eq (by rwa [value]), value]
  simp only [magnitude?, whole, nothingElse, guard, if_pos shape, appended]
  cases negative with
  | false => simp [exponent?, pure]
  | true => simp [exponent?, pure, negatable rfl]

theorem ofWord?_toDigits (fits : number < UInt64.size) :
    ofWord? (Nat.toDigits 10 number) = some (scalar (integer number)) := by
  have read := magnitude?_toDigits false fits (by simp)
  have digits : ∀ c ∈ Nat.toDigits 10 number, isDigit c = true := fun _ => isDigit_of_mem
  unfold ofWord?
  split
  case h_5 =>
    rw [read]
    rfl
  all_goals
    rename_i shape
    rw [shape] at digits
    exact absurd (digits _ List.mem_cons_self) (by decide)

theorem ofWord?_negative (nonzero : number ≠ 0) (fits : 2 * number ≤ UInt64.size) :
    ofWord? ('-' :: Nat.toDigits 10 number) = some (scalar (integer (-number))) := by
  have read := magnitude?_toDigits true (by omega) fun _ => ⟨nonzero, fits⟩
  simp only [ofWord?, read]
  rfl

end Numbers

end Token

/-- No number with a point or an exponent, and no integer that takes more than 64 bits. -/
inductive Plain : Json → Prop where
  | null : Plain null
  | bool (value : Bool) : Plain (bool value)
  | natural (number : Nat) (fits : number < UInt64.size) : Plain (integer number)
  | negative (number : Nat) (nonzero : number ≠ 0) (fits : 2 * number ≤ UInt64.size) :
      Plain (integer (-number))
  | string (text : String) : Plain (string text)
  | array {items : List Json} (all : ∀ item ∈ items, Plain item) : Plain (array items)
  | object {fields : List (String × Json)} (all : ∀ field ∈ fields, Plain field.2) :
      Plain (object fields)

def Ready (text : String) (parse : Parse) : Prop :=
  ∃ tokens, text.toList.foldlM Token.step ⟨.between, []⟩ = some ⟨.between, tokens⟩ ∧
    tokens.reverse.foldlM Parse.step ⟨[], .value⟩ = some parse

/-- The reader has taken a text, whose last word more letters could still make longer. -/
def Settled (text : String) (parse : Parse) : Prop :=
  ∃ scan tokens, text.toList.foldlM Token.step ⟨.between, []⟩ = some scan ∧
    scan.tokens? = some tokens ∧ tokens.reverse.foldlM Parse.step ⟨[], .value⟩ = some parse

def Parse.AwaitsValue (parse : Parse) : Prop :=
  parse.expected = .value ∨ parse.expected = .valueOrClose

/-- Wherever the value may stand, writing it there makes the reader take it. -/
def Taken (value : Json) : Prop :=
  ∀ (done : String) (parse next : Parse), Ready done parse → parse.AwaitsValue →
    Parse.complete parse.frames value = some next → Settled (writeCompact done value) next

section Reading

variable {text : String} {parse next : Parse} {token : Token}

theorem ready_empty : Ready "" ⟨[], .value⟩ := ⟨[], rfl, rfl⟩

theorem Ready.settled (ready : Ready text parse) : Settled text parse := by
  obtain ⟨tokens, scanned, parsed⟩ := ready
  exact ⟨_, tokens, scanned, rfl, parsed⟩

theorem ofText?_of_settled {value : Json} (settled : Settled text ⟨[], .nothing value⟩) :
    ofText? text = some value := by
  obtain ⟨scan, tokens, scanned, found, parsed⟩ := settled
  simp [ofText?, Token.scan?_eq, scanned, found, parsed]

theorem foldlM_step_concat {tokens : List Token}
    (parsed : tokens.reverse.foldlM Parse.step ⟨[], .value⟩ = some parse)
    (stepped : parse.step token = some next) :
    (token :: tokens).reverse.foldlM Parse.step ⟨[], .value⟩ = some next := by
  rw [List.reverse_cons, List.foldlM_append, parsed]
  simp [stepped]

theorem Settled.sign {sign : String} {c : Char} (settled : Settled text parse)
    (single : sign.toList = [c]) (noLetter : Token.isWordLetter c = false)
    (stands : ∀ done, Token.startAt done c = some ⟨.between, token :: done⟩)
    (stepped : parse.step token = some next) : Ready (text ++ sign) next := by
  obtain ⟨scan, tokens, scanned, found, parsed⟩ := settled
  refine ⟨token :: tokens, ?_, foldlM_step_concat parsed stepped⟩
  rw [String.toList_append, single, List.foldlM_append, scanned]
  simp [Token.step_of_tokens? found noLetter, stands]

theorem Settled.comma (settled : Settled text parse) (stepped : parse.step .comma = some next) :
    Ready (text ++ ",") next :=
  settled.sign (show ",".toList = [','] from rfl) rfl (fun _ => rfl) stepped

theorem Ready.quote (ready : Ready text parse) (name : String)
    (stepped : parse.step (.scalar (string name)) = some next) :
    Ready (text ++ quote name) next := by
  obtain ⟨tokens, scanned, parsed⟩ := ready
  refine ⟨_, ?_, foldlM_step_concat parsed stepped⟩
  rw [String.toList_append, List.foldlM_append, scanned, Option.bind_eq_bind, Option.bind_some]
  exact Token.foldlM_step_quote tokens name

theorem Ready.word {word : String} (ready : Ready text parse)
    (all : ∀ c ∈ word.toList, Token.isWordLetter c = true)
    (read : Token.ofWord? word.toList = some token) (stepped : parse.step token = some next) :
    Settled (text ++ word) next := by
  obtain ⟨tokens, scanned, parsed⟩ := ready
  obtain ⟨scan, taken, found⟩ := Token.foldlM_step_word tokens all read
  refine ⟨scan, token :: tokens, ?_, found, foldlM_step_concat parsed stepped⟩
  rw [String.toList_append, List.foldlM_append, scanned, Option.bind_eq_bind, Option.bind_some]
  exact taken

theorem Parse.AwaitsValue.step (awaits : parse.AwaitsValue) (opens : token ≠ .closeArray) :
    parse.step token = startValue parse.frames token := by
  obtain ⟨frames, expected⟩ := parse
  rcases awaits with rfl | rfl
  · rfl
  · cases token with
    | closeArray => exact absurd rfl opens
    | _ => rfl

end Reading

section Parts

variable {outer : List Frame} {expected : Expected}

theorem settled_writeItems {items : List Json} (taken : ∀ item ∈ items, Taken item)
    (done : String) (before : List Json) (ready : Ready done ⟨.array before :: outer, expected⟩)
    (awaits : expected = .value ∨ expected = .valueOrClose) (nonempty : items ≠ []) :
    Settled (writeItems done items) ⟨.array (items.reverse ++ before) :: outer, .commaOrClose⟩ := by
  induction items generalizing done before expected with
  | nil => exact absurd rfl nonempty
  | cons item rest ih =>
      have first : Settled (writeCompact done item)
          ⟨.array (item :: before) :: outer, .commaOrClose⟩ :=
        taken item List.mem_cons_self done _ _ ready awaits rfl
      cases rest with
      | nil => exact first
      | cons second rest =>
          have others := ih (fun item member => taken item (List.mem_cons_of_mem _ member)) _ _
            (first.comma rfl) (.inl rfl) (by simp)
          simpa [writeItems] using others

theorem settled_writeFields {fields : List (String × Json)}
    (taken : ∀ field ∈ fields, Taken field.2) (done : String) (before : List (String × Json))
    (ready : Ready done ⟨.object before :: outer, expected⟩)
    (awaits : expected = .name ∨ expected = .nameOrClose) (nonempty : fields ≠ []) :
    Settled (writeFields done fields)
      ⟨.object (fields.reverse ++ before) :: outer, .commaOrClose⟩ := by
  induction fields generalizing done before expected with
  | nil => exact absurd rfl nonempty
  | cons field rest ih =>
      obtain ⟨name, value⟩ := field
      have named : Ready (done ++ quote name) ⟨.member before name :: outer, .colon⟩ := by
        apply ready.quote name
        rcases awaits with rfl | rfl <;> rfl
      have opened : Ready (done ++ quote name ++ ":") ⟨.member before name :: outer, .value⟩ :=
        named.settled.sign (show ":".toList = [':'] from rfl) rfl (fun _ => rfl) rfl
      have first : Settled (writeCompact (done ++ quote name ++ ":") value)
          ⟨.object ((name, value) :: before) :: outer, .commaOrClose⟩ :=
        taken (name, value) List.mem_cons_self _ _ _ opened (.inl rfl) rfl
      cases rest with
      | nil => exact first
      | cons second rest =>
          have others := ih (fun field member => taken field (List.mem_cons_of_mem _ member)) _ _
            (first.comma rfl) (.inl rfl) (by simp)
          simpa [writeFields] using others

end Parts

theorem taken_array {items : List Json} (taken : ∀ item ∈ items, Taken item) :
    Taken (array items) := by
  intro done parse next ready awaits completed
  have opened : Ready (done ++ "[") ⟨.array [] :: parse.frames, .valueOrClose⟩ :=
    ready.settled.sign (show "[".toList = ['['] from rfl) rfl (fun _ => rfl)
      (awaits.step (by simp))
  have close {text : String} {before : List Json} {expected : Expected}
      (settled : Settled text ⟨.array before :: parse.frames, expected⟩)
      (stepped : Parse.step ⟨.array before :: parse.frames, expected⟩ .closeArray = some next) :
      Settled (text ++ "]") next :=
    (settled.sign (show "]".toList = [']'] from rfl) rfl (fun _ => rfl) stepped).settled
  cases items with
  | nil => exact close opened.settled completed
  | cons item rest =>
      apply close (settled_writeItems taken _ _ opened (.inr rfl) (by simp))
      rw [List.append_nil]
      change Parse.complete parse.frames (array (item :: rest).reverse.reverse) = some next
      rwa [List.reverse_reverse]

theorem taken_object {fields : List (String × Json)} (taken : ∀ field ∈ fields, Taken field.2) :
    Taken (object fields) := by
  intro done parse next ready awaits completed
  have opened : Ready (done ++ "\x7b") ⟨.object [] :: parse.frames, .nameOrClose⟩ :=
    ready.settled.sign (show "\x7b".toList = ['\x7b'] from rfl) rfl (fun _ => rfl)
      (awaits.step (by simp))
  have close {text : String} {before : List (String × Json)} {expected : Expected}
      (settled : Settled text ⟨.object before :: parse.frames, expected⟩)
      (stepped : Parse.step ⟨.object before :: parse.frames, expected⟩ .closeObject = some next) :
      Settled (text ++ "\x7d") next :=
    (settled.sign (show "\x7d".toList = ['\x7d'] from rfl) rfl (fun _ => rfl) stepped).settled
  cases fields with
  | nil => exact close opened.settled completed
  | cons field rest =>
      apply close (settled_writeFields taken _ _ opened (.inr rfl) (by simp))
      rw [List.append_nil]
      change Parse.complete parse.frames (object (field :: rest).reverse.reverse) = some next
      rwa [List.reverse_reverse]

theorem toList_toString_natural (number : Nat) :
    (toString (number : Int)).toList = Nat.toDigits 10 number := by
  change (Int.repr (Int.ofNat number)).toList = _
  simp [Int.repr]

theorem toList_toString_negative {number : Nat} (nonzero : number ≠ 0) :
    (toString (-(number : Int))).toList = '-' :: Nat.toDigits 10 number := by
  obtain ⟨less, rfl⟩ := Nat.exists_eq_succ_of_ne_zero nonzero
  change (Int.repr (Int.negSucc less)).toList = _
  simp [Int.repr]

theorem taken_word {value : Json}
    (written : ∀ done, writeCompact done value = done ++ scalarText value)
    (letters : ∀ c ∈ (scalarText value).toList, Token.isWordLetter c = true)
    (read : Token.ofWord? (scalarText value).toList = some (.scalar value)) : Taken value := by
  intro done parse next ready awaits completed
  rw [written]
  exact ready.word letters read ((awaits.step (by simp)).trans completed)

theorem Plain.taken {value : Json} (plain : value.Plain) : Taken value := by
  induction plain with
  | null => exact taken_word (fun _ => rfl) (List.all_eq_true.mp rfl) rfl
  | bool value => cases value <;> exact taken_word (fun _ => rfl) (List.all_eq_true.mp rfl) rfl
  | natural number fits =>
      have written : (scalarText (integer number)).toList = Nat.toDigits 10 number :=
        toList_toString_natural number
      refine taken_word (fun _ => rfl) ?_ ?_ <;> rw [written]
      · exact fun _ => Token.isWordLetter_of_mem
      · exact Token.ofWord?_toDigits fits
  | negative number nonzero fits =>
      have written : (scalarText (integer (-number))).toList = '-' :: Nat.toDigits 10 number :=
        toList_toString_negative nonzero
      refine taken_word (fun _ => rfl) ?_ ?_ <;> rw [written]
      · exact List.forall_mem_cons.mpr ⟨rfl, fun _ => Token.isWordLetter_of_mem⟩
      · exact Token.ofWord?_negative nonzero fits
  | string text =>
      intro done parse next ready awaits completed
      exact (ready.quote text ((awaits.step (by simp)).trans completed)).settled
  | array _ taken => exact taken_array taken
  | object _ taken => exact taken_object taken

theorem ofText?_compact {value : Json} (plain : value.Plain) : ofText? value.compact = some value :=
  ofText?_of_settled (plain.taken "" _ _ ready_empty (.inl rfl) rfl)

end LedgerWire.Json
