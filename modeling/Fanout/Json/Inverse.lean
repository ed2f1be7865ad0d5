import Fanout.Json.Text

/-! # Reading undoes writing

Every value is read back from the text it is written as (`read?_render`). The proof follows the two
stages of reading: the text of some tokens is cut into those tokens again, and the tokens of a value
are put together to that value.
-/

namespace Fanout.Json

namespace Quoted

theorem hexValue?_digitChar : ∀ n < 16, hexValue? (Nat.digitChar n) = some n := by
  decide

theorem ofHex?_control {c : Char} (h : c.toNat < 0x20) :
    Piece.ofHex? '0' '0' (Nat.digitChar (c.toNat / 16)) (Nat.digitChar (c.toNat % 16)) =
      some (.char c) := by
  have zero : hexValue? '0' = some 0 := by decide
  have high := hexValue?_digitChar (c.toNat / 16) (by omega)
  have low := hexValue?_digitChar (c.toNat % 16) (by omega)
  have back : (0 * 16 + 0) * 256 + (c.toNat / 16 * 16 + c.toNat % 16) = c.toNat := by omega
  have plain : isLeading c.toNat || isTrailing c.toNat ↔ False := by
    simp [isLeading, isTrailing]
    omega
  simp only [Piece.ofHex?, zero, high, low, Option.bind_eq_bind, Option.bind_some, back, plain,
    if_false, Char.ofNat_toNat]

theorem scan?_escape (c : Char) (rest : List Char) :
    scan? (escape c ++ rest) =
      (scan? rest).map fun (pieces, rest) => (.char c :: pieces, rest) := by
  unfold escape
  split
  case h_8 =>
    split
    · next control =>
      have long : unescape? 'u' = none := rfl
      simp only [List.cons_append, List.nil_append, scan?, long, ofHex?_control control, if_true]
      cases scan? rest <;> rfl
    · rw [List.singleton_append, scan?.eq_def]
      grind
  all_goals rfl

theorem scan?_flatMap_escape (s rest : List Char) :
    scan? (s.flatMap escape ++ '"' :: rest) = some (s.map .char, rest) := by
  induction s with
  | nil => simp [scan?]
  | cons c s ih => simp [scan?_escape, ih]

theorem join?_map_char (s : List Char) : join? (s.map .char) = some s := by
  induction s with
  | nil => rfl
  | cons c s ih => simp [join?, ih]

end Quoted

namespace Numeral

theorem isDigit_of_mem_toDigits {n : Nat} {c : Char} (h : c ∈ Nat.toDigits 10 n) :
    c.isDigit = true :=
  Nat.isDigit_of_mem_toDigits (by decide) (by decide) h

theorem exists_toDigits_eq {n : Nat} (h : n ≠ 0) :
    ∃ c rest, Nat.toDigits 10 n = c :: rest ∧ c ≠ '0' := by
  induction n using Nat.strongRecOn with
  | _ n ih =>
    by_cases small : n < 10
    · have digit : ∀ n < 10, n ≠ 0 → Nat.digitChar n ≠ '0' := by decide
      exact ⟨Nat.digitChar n, [], Nat.toDigits_of_lt_base small, digit n small h⟩
    · obtain ⟨c, rest, eq, ne⟩ := ih (n / 10) (by omega) (by omega)
      refine ⟨c, rest ++ [Nat.digitChar (n % 10)], ?_, ne⟩
      rw [Nat.toDigits_of_base_le (by decide) (by omega), eq, List.cons_append]

theorem isWhole_toDigits (n : Nat) : isWhole (Nat.toDigits 10 n) = true := by
  by_cases h : n = 0
  · subst h
    rfl
  · obtain ⟨c, rest, eq, ne⟩ := exists_toDigits_eq h
    have digits : ∀ c ∈ Nat.toDigits 10 n, c.isDigit = true := fun _ => isDigit_of_mem_toDigits
    rw [eq] at digits ⊢
    unfold isWhole
    split <;> simp_all

theorem read?_write (value : Option Nat) : read? (write value) = some value := by
  cases value with
  | none => rfl
  | some n =>
    have whole := isWhole_toDigits n
    unfold read? write
    split
    · next rest eq =>
      have signed : '-' ∈ Nat.toDigits 10 n := by
        rw [show Nat.toDigits 10 n = '-' :: rest from eq]
        exact List.mem_cons_self
      exact absurd (isDigit_of_mem_toDigits signed) (by decide)
    · simp [whole]

end Numeral

namespace Token

/-- Nothing follows that would make a word longer. -/
def EndsWord (rest : List Char) : Prop :=
  ∀ c tail, rest = c :: tail → isWordChar c = false

theorem EndsWord.nil : EndsWord [] := by
  intro c tail h
  cases h

/-- Marks stand for themselves and end every word before them. -/
def isMark : Token → Bool
  | .comma | .colon | .openArray | .closeArray | .openObject | .closeObject => true
  | _ => false

theorem endsWord_mark (mark : Token) (rest : List Char) (h : mark.isMark = true) :
    EndsWord (mark.spell ++ rest) := by
  intro c tail eq
  cases mark <;> simp only [isMark, Bool.false_eq_true] at h <;>
    · obtain ⟨rfl, _⟩ := eq
      rfl

theorem isWordChar_of_isDigit {c : Char} (h : c.isDigit = true) : isWordChar c = true := by
  simp [isWordChar, Char.isAlphanum, h]

theorem isBlank_of_isWordChar {c : Char} (h : isWordChar c = true) : isBlank c = false := by
  cases blank : isBlank c with
  | false => rfl
  | true =>
    simp only [isBlank, Bool.or_eq_true, decide_eq_true_eq] at blank
    obtain ((rfl | rfl) | rfl) | rfl := blank <;> simp [isWordChar] at h

theorem word_split {word rest : List Char} (h : ∀ c ∈ word, isWordChar c = true)
    (ends : EndsWord rest) :
    (word ++ rest).takeWhile isWordChar = word ∧ (word ++ rest).dropWhile isWordChar = rest := by
  induction word with
  | nil =>
    cases rest with
    | nil => simp
    | cons c tail => simp [ends c tail rfl]
  | cons c word ih =>
    have := ih fun c member => h c (List.mem_cons_of_mem _ member)
    simp [h c List.mem_cons_self, this]

theorem first?_word {c : Char} {word rest : List Char} {token : Token}
    (word_chars : (c :: word).all isWordChar = true)
    (meaning : ofWord? (c :: word) = some token) (ends : EndsWord rest) :
    first? (c :: word ++ rest) = some (token, rest) := by
  have h := List.all_eq_true.mp word_chars
  have ⟨taken, dropped⟩ := word_split (fun x member => h x (List.mem_cons_of_mem _ member)) ends
  have head := h c List.mem_cons_self
  rw [List.cons_append, first?.eq_def]
  split <;> simp_all [isWordChar]

theorem first?_mark (mark : Token) (rest : List Char) (h : mark.isMark = true) :
    first? (mark.spell ++ rest) = some (mark, rest) := by
  cases mark <;> first | rfl | simp [isMark] at h

theorem first?_spell (token : Token) {rest : List Char} (ends : EndsWord rest) :
    first? (token.spell ++ rest) = some (token, rest) := by
  cases token with
  | openArray | closeArray | openObject | closeObject | comma | colon => rfl
  | null => exact first?_word rfl rfl ends
  | bool value => cases value <;> exact first?_word rfl rfl ends
  | number value =>
    cases value with
    | none => exact first?_word rfl rfl ends
    | some n =>
      cases word : Nat.toDigits 10 n with
      | nil => exact absurd word Nat.toDigits_ne_nil
      | cons c digits =>
        have isDigit : ∀ x ∈ Nat.toDigits 10 n, x.isDigit = true :=
          fun _ => Numeral.isDigit_of_mem_toDigits
        have meaning := Numeral.read?_write (some n)
        simp only [Numeral.write, spell, word] at isDigit meaning ⊢
        have chars := List.all_eq_true.mpr fun x member => isWordChar_of_isDigit (isDigit x member)
        refine first?_word chars ?_ ends
        unfold ofWord?
        split <;> simp_all [Char.isDigit]
  | string value =>
    cases value with
    | none =>
      have scanned : Quoted.scan? ('\\' :: 'u' :: 'd' :: '8' :: '0' :: '0' :: '"' :: rest) =
          some ([.half 0xD800], rest) := by
        have long : Quoted.unescape? 'u' = none := rfl
        have half : Quoted.Piece.ofHex? 'd' '8' '0' '0' = some (.half 0xD800) := by decide
        simp [Quoted.scan?, long, half]
      simp [spell, first?, scanned, Quoted.join?]
    | some value =>
      simp [spell, Quoted.encode, first?, Quoted.scan?_flatMap_escape, Quoted.join?_map_char]

theorem exists_spell_eq (token : Token) :
    ∃ c tail, token.spell = c :: tail ∧ isBlank c = false := by
  cases token with
  | openArray | closeArray | openObject | closeObject | comma | colon | null =>
    exact ⟨_, _, rfl, rfl⟩
  | bool value => cases value <;> exact ⟨_, _, rfl, rfl⟩
  | number value =>
    cases value with
    | none => exact ⟨_, _, rfl, rfl⟩
    | some n =>
      cases digits : Nat.toDigits 10 n with
      | nil => exact absurd digits Nat.toDigits_ne_nil
      | cons c tail =>
        have isDigit : c.isDigit = true :=
          Numeral.isDigit_of_mem_toDigits (digits ▸ List.mem_cons_self)
        exact ⟨c, tail, digits, isBlank_of_isWordChar (isWordChar_of_isDigit isDigit)⟩
  | string value => cases value <;> exact ⟨_, _, rfl, rfl⟩

theorem lex?_of_first? {token : Token} {rest : List Char}
    (first : first? (token.spell ++ rest) = some (token, rest)) :
    lex? (token.spell ++ rest) = (lex? rest).map (token :: ·) := by
  obtain ⟨c, tail, spelled, solid⟩ := exists_spell_eq token
  have start : (c :: (tail ++ rest)).dropWhile isBlank = c :: (tail ++ rest) := by
    simp [solid]
  rw [spelled, List.cons_append] at first ⊢
  rw [lex?.eq_def]
  split
  · simp_all
  · next eq =>
    rw [start] at eq
    obtain ⟨rfl, rfl⟩ := eq
    split <;> simp_all

theorem lex?_spell (token : Token) {rest : List Char} (ends : EndsWord rest) :
    lex? (token.spell ++ rest) = (lex? rest).map (token :: ·) :=
  lex?_of_first? (first?_spell token ends)

theorem lex?_mark (mark : Token) (rest : List Char) (h : mark.isMark = true) :
    lex? (mark.spell ++ rest) = (lex? rest).map (mark :: ·) :=
  lex?_of_first? (first?_mark mark rest h)

end Token

open Token

mutual

theorem lex?_tokens : ∀ (value : Json) {rest : List Char}, EndsWord rest →
    lex? ((tokens value).flatMap spell ++ rest) = (lex? rest).map (tokens value ++ ·)
  | .null, _, ends => by simpa [tokens] using lex?_spell .null ends
  | .bool value, _, ends => by simpa [tokens] using lex?_spell (.bool value) ends
  | .number value, _, ends => by simpa [tokens] using lex?_spell (.number value) ends
  | .string value, _, ends => by simpa [tokens] using lex?_spell (.string value) ends
  | .array items, rest, _ => by
    simp [tokens, lex?_mark .openArray _ rfl, lex?_itemTokens items rest, Function.comp_def]
  | .object members, rest, _ => by
    simp [tokens, lex?_mark .openObject _ rfl, lex?_memberTokens members rest, Function.comp_def]

theorem lex?_itemTokens : ∀ (items : List Json) (rest : List Char),
    lex? ((itemTokens items).flatMap spell ++ rest) = (lex? rest).map (itemTokens items ++ ·)
  | [], rest => by simp [itemTokens, lex?_mark .closeArray _ rfl]
  | [item], rest => by
    have ends := endsWord_mark .closeArray rest rfl
    simp [itemTokens, lex?_tokens item ends, lex?_mark .closeArray _ rfl, Function.comp_def]
  | item :: next :: items, rest => by
    have ends := endsWord_mark .comma ((itemTokens (next :: items)).flatMap spell ++ rest) rfl
    simp [itemTokens, lex?_tokens item ends, lex?_mark .comma _ rfl,
      lex?_itemTokens (next :: items) rest, Function.comp_def]

theorem lex?_memberTokens : ∀ (members : List (Option String × Json)) (rest : List Char),
    lex? ((memberTokens members).flatMap spell ++ rest) =
      (lex? rest).map (memberTokens members ++ ·)
  | [], rest => by simp [memberTokens, lex?_mark .closeObject _ rfl]
  | [(key, value)], rest => by
    have ends := endsWord_mark .closeObject rest rfl
    have keyEnds := endsWord_mark .colon
      ((tokens value).flatMap spell ++ (Token.closeObject.spell ++ rest)) rfl
    simp [memberTokens, lex?_spell (.string key) keyEnds, lex?_tokens value ends,
      lex?_mark .colon _ rfl, lex?_mark .closeObject _ rfl, Function.comp_def]
  | (key, value) :: next :: members, rest => by
    have ends := endsWord_mark .comma
      ((memberTokens (next :: members)).flatMap spell ++ rest) rfl
    have keyEnds := endsWord_mark .colon
      ((tokens value).flatMap spell ++
        (Token.comma.spell ++ ((memberTokens (next :: members)).flatMap spell ++ rest))) rfl
    simp [memberTokens, lex?_spell (.string key) keyEnds, lex?_tokens value ends,
      lex?_mark .colon _ rfl, lex?_mark .comma _ rfl, lex?_memberTokens (next :: members) rest,
      Function.comp_def]

end

theorem tokens_append_ne_closeArray (value : Json) (rest : List Token) :
    ∀ ts, tokens value ++ rest ≠ .closeArray :: ts := by
  cases value <;> simp [tokens]

mutual

theorem readValue_tokens (frames : List Frame) (rest : List Token) :
    ∀ value : Json, readValue frames (tokens value ++ rest) = readAfter value frames rest
  | .null => rfl
  | .bool _ => rfl
  | .number _ => rfl
  | .string _ => rfl
  | .array [] => rfl
  | .array (item :: items) => by
    have opened : readValue frames (.openArray :: (itemTokens (item :: items) ++ rest)) =
        readValue (.array [] :: frames) (itemTokens (item :: items) ++ rest) := by
      cases items <;>
        simp only [itemTokens, List.append_assoc] <;>
        exact readValue.eq_6 _ _ (tokens_append_ne_closeArray item _)
    simpa [tokens, opened] using readValue_itemTokens frames rest [] (item :: items) (by simp)
  | .object [] => rfl
  | .object [(key, value)] => by
    simp [tokens, memberTokens, readValue, readValue_tokens _ _ value, readAfter]
  | .object ((key, value) :: next :: members) => by
    simp [tokens, memberTokens, readValue, readValue_tokens _ _ value,
      readAfter_memberTokens frames rest [] key value (next :: members) (by simp)]

theorem readValue_itemTokens (frames : List Frame) (rest : List Token) (done : List Json) :
    ∀ items : List Json, items ≠ [] →
      readValue (.array done :: frames) (itemTokens items ++ rest) =
        readAfter (.array (done.reverse ++ items)) frames rest
  | [], h => absurd rfl h
  | [item], _ => by
    simp [itemTokens, readValue_tokens _ _ item, readAfter]
  | item :: next :: items, _ => by
    simp [itemTokens, readValue_tokens _ _ item, readAfter,
      readValue_itemTokens frames rest (item :: done) (next :: items) (by simp)]

theorem readAfter_memberTokens (frames : List Frame) (rest : List Token)
    (done : List (Option String × Json)) (key : Option String) (value : Json) :
    ∀ members : List (Option String × Json), members ≠ [] →
      readAfter value (.object done key :: frames) (.comma :: (memberTokens members ++ rest)) =
        readAfter (.object (done.reverse ++ (key, value) :: members)) frames rest
  | [], h => absurd rfl h
  | [(next, item)], _ => by
    simp [memberTokens, readValue_tokens _ _ item, readAfter]
  | (next, item) :: after :: members, _ => by
    simp [memberTokens, readValue_tokens _ _ item, readAfter,
      readAfter_memberTokens frames rest ((key, value) :: done) next item (after :: members)
        (by simp)]

end

/-- Every value is read back from its text. -/
theorem read?_render (value : Json) : read? (render value) = some value := by
  have lexed := lex?_tokens value EndsWord.nil
  have empty : lex? [] = some [] := by simp [lex?]
  simp only [List.append_nil, empty, Option.map_some] at lexed
  have put := readValue_tokens [] [] value
  simp only [List.append_nil] at put
  simp [read?, render, lexed, put, readAfter]

end Fanout.Json
