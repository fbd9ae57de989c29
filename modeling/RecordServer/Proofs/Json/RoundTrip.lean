import Mathlib
import RecordServer.Json.Printer
import RecordServer.Parser.Basic
import RecordServer.Proofs.Decimal.Reading
import RecordServer.Proofs.Input.Properties

/-!
# Reading what has been printed

A value whose maps have different names and which has no floating point number in it (`Value.Exact`) is read back from
its JSON text, unless it has too many lists and maps within each other (`Value.nesting`, `Json.ofChars?_chars`).

The parts of the text are read one after the other, each with any rest behind it: a string up to its closing quote
(`Json.string?_quote`), an integer up to what is no part of a number (`Json.number?_integerText`), the items of a list
and the fields of a map up to the closing bracket (`Json.items?_charsItems`, `Json.fields?_charsFields`).
-/

namespace RecordServer

/-! ## Values -/

namespace Value

mutual

/-- The number of lists and maps within each other. -/
def nesting : Value → Nat
  | list items => nestingItems items + 1
  | map fields => nestingFields fields + 1
  | _ => 0

/-- The number of lists and maps within each other, for the items of a list. -/
def nestingItems : List Value → Nat
  | [] => 0
  | item :: rest => max (nesting item) (nestingItems rest)

/-- The number of lists and maps within each other, for the fields of a map. -/
def nestingFields : List (String × Value) → Nat
  | [] => 0
  | (_, value) :: rest => max (nesting value) (nestingFields rest)

end

mutual

/-- A value without floating point numbers, and with different names in each map. -/
def Exact : Value → Prop
  | float _ => False
  | list items => ExactItems items
  | map fields => (Fields.names fields).Nodup ∧ ExactFields fields
  | _ => True

/-- All items of a list are exact. -/
def ExactItems : List Value → Prop
  | [] => True
  | item :: rest => Exact item ∧ ExactItems rest

/-- All values of a map are exact. -/
def ExactFields : List (String × Value) → Prop
  | [] => True
  | (_, value) :: rest => Exact value ∧ ExactFields rest

end

end Value

namespace Json

/-! ## Strings -/

theorem hexValue?_hexDigit {n : Nat} (h : n < 16) : hexValue? (hexDigit n) = some n :=
  (show ∀ n < 16, hexValue? (hexDigit n) = some n by decide) n h

/-- A letter behind a backslash. -/
theorem string?_letter {c e : Char} {rest : List Char} (h : escaped? c = some e) :
    string? ('\\' :: c :: rest) = (string? rest).map fun (cs, rest) => (e :: cs, rest) := by
  have hu : c ≠ 'u' := by
    rintro rfl
    cases h
  rw [string?]
  · rw [h]
    cases string? rest <;> rfl
  · rintro _ _ _ _ _ heq _
    exact hu heq

/-- The number of a control character behind a backslash. -/
theorem string?_control {c : Char} {rest : List Char} (h : c.toNat < 0x20) :
    string? ('\\' :: 'u' :: '0' :: '0' :: hexDigit (c.toNat / 16) :: hexDigit (c.toNat % 16) :: rest) =
      (string? rest).map fun (cs, rest) => (c :: cs, rest) := by
  have hunit : unit? '0' '0' (hexDigit (c.toNat / 16)) (hexDigit (c.toNat % 16)) = some c.toNat := by
    rw [unit?, hexValue?_hexDigit (by omega), hexValue?_hexDigit (by omega), show hexValue? '0' = some 0 from rfl]
    simp only [Option.bind_eq_bind, Option.bind_some, Option.some.injEq]
    omega
  rw [string?, hunit, Option.bind_eq_bind, Option.bind_some, if_pos (.inl (by omega)), Char.ofNat_toNat]
  cases string? rest <;> rfl

/-- A character that is written as it is. -/
theorem string?_plain {c : Char} {rest : List Char} (hquote : c ≠ '"') (hescape : c ≠ '\\') (h : ¬c.toNat < 0x20) :
    string? (c :: rest) = (string? rest).map fun (cs, rest) => (c :: cs, rest) := by
  rw [string?]
  · rw [if_neg (not_or.2 ⟨h, hescape⟩)]
    cases string? rest <;> rfl
  · exact hquote
  · rintro _ _ _ _ _ rfl _
    exact hescape rfl
  · rintro _ _ rfl _
    exact hescape rfl

/-- A character is read back. -/
theorem string?_escape (c : Char) (rest : List Char) :
    string? (escape c ++ rest) = (string? rest).map fun (cs, rest) => (c :: cs, rest) := by
  unfold escape
  split
  all_goals try exact string?_letter rfl
  rename_i hquote hescape _ _ _ _ _
  split
  · rename_i hcontrol
    exact string?_control hcontrol
  · rename_i hplain
    exact string?_plain hquote hescape hplain

/-- A text is read back up to the closing quote. -/
theorem string?_quote (text rest : List Char) : string? (text.flatMap escape ++ '"' :: rest) = some (text, rest) := by
  induction text with
  | nil => rfl
  | cons c text ih => rw [List.flatMap_cons, List.append_assoc, string?_escape, ih, Option.map_some]

/-! ## Numbers -/

/-- What stands behind a value: nothing, or what separates or closes values. -/
def Closed (rest : List Char) : Prop := ∀ c ∈ rest.head?, c = ',' ∨ c = ']' ∨ c = '}'

theorem Closed.cons {c : Char} {rest : List Char} (h : c = ',' ∨ c = ']' ∨ c = '}') : Closed (c :: rest) := by
  intro c' hc'
  obtain rfl := Option.some.inj hc'
  exact h

/-- Digits are read as far as they go. -/
theorem digits_append {ds rest : List Char} (hds : ∀ c ∈ ds, c.isDigit = true) (hrest : Closed rest) :
    digits (ds ++ rest) = (ds, rest) := by
  have hend : rest.takeWhile Char.isDigit = [] ∧ rest.dropWhile Char.isDigit = rest := by
    cases rest with
    | nil => exact ⟨rfl, rfl⟩
    | cons c rest =>
      have hc : ¬c.isDigit := by
        rcases hrest c rfl with rfl | rfl | rfl <;> decide
      exact ⟨List.takeWhile_cons_of_neg hc, List.dropWhile_cons_of_neg hc⟩
  rw [digits, List.takeWhile_append_of_pos hds, List.dropWhile_append_of_pos hds, hend.1, hend.2, List.append_nil]

/-- All digits fit of a number that does. -/
theorem absorb_eq {value : Nat} {ds : List Char} (h : Decimal.ofDigits value ds ≤ maxSignificand) :
    absorb value ds = (Decimal.ofDigits value ds, []) := by
  induction ds generalizing value with
  | nil => rfl
  | cons c ds ih =>
    rw [Decimal.ofDigits_cons] at h ⊢
    rw [absorb, if_pos (Nat.le_trans (Decimal.le_ofDigits _ _) h), ih h]

theorem exponent?_of_closed {rest : List Char} (h : Closed rest) : exponent? rest = some (none, rest) := by
  cases rest with
  | nil => rfl
  | cons c rest =>
    rw [exponent?, if_neg]
    rcases h c rfl with rfl | rfl | rfl <;> decide

/-- The digits of an integer of 64 bits are read back as one, except for a negative zero. -/
theorem unsignedNumber?_toDigits {negative : Bool} {n : Nat} {m : Int} {rest : List Char}
    (hm : m = if negative then -(n : Int) else n) (hlow : -2 ^ 63 ≤ m) (hhigh : m < 2 ^ 63)
    (hzero : ¬(negative = true ∧ m = 0)) (hrest : Closed rest) :
    unsignedNumber? negative (Nat.toDigits 10 n ++ rest) = some (.integer (Int64.ofInt m), rest) := by
  have hn : n ≤ maxSignificand := by
    unfold maxSignificand
    split at hm <;> omega
  have hwhole : ¬(Nat.toDigits 10 n = [] ∨ (Nat.toDigits 10 n).head? = some '0' ∧ Nat.toDigits 10 n ≠ ['0']) := by
    rintro (hnil | ⟨hhead, hne⟩)
    · exact Nat.toDigits_ne_nil hnil
    · exact hne (Decimal.toDigits_of_head? hhead)
  have hpoint : ∀ fraction, rest ≠ '.' :: fraction := by
    rintro fraction rfl
    exact absurd (hrest '.' rfl) (by decide)
  have habsorb : absorb 0 (Nat.toDigits 10 n) = (n, []) := by
    rw [absorb_eq (by rwa [Decimal.ofDigits_toDigits]), Decimal.ofDigits_toDigits]
  have hinteger : ¬(([] : List Char) ≠ [] ∨ m < -9223372036854775808 ∨ 9223372036854775808 ≤ m ∨
      negative = true ∧ m = 0) := by
    rintro (hdropped | hless | hmore | hboth)
    · exact hdropped rfl
    · omega
    · omega
    · exact hzero hboth
  unfold unsignedNumber?
  rw [digits_append (fun c => Decimal.isDigit_of_mem_toDigits) hrest]
  simp only [if_neg hwhole, habsorb, ← hm]
  rw [exponent?_of_closed hrest, Option.bind_eq_bind, Option.bind_some]
  exact if_neg hinteger

/-- The text of an integer begins with a minus sign or a digit. -/
theorem exists_integerText (number : Int64) :
    ∃ c more, (Value.integerText number).toList = c :: more ∧ (c = '-' ∨ c.isDigit = true) := by
  rw [Value.toList_integerText]
  split
  · exact ⟨'-', _, rfl, .inl rfl⟩
  · obtain ⟨d, ds, hds, hd⟩ := Decimal.exists_toDigits number.toInt.natAbs
    exact ⟨d, ds, hds, .inr hd⟩

/-- The text of an integer is read back. -/
theorem number?_integerText (number : Int64) {rest : List Char} (hrest : Closed rest) :
    number? ((Value.integerText number).toList ++ rest) = some (.integer number, rest) := by
  have hlow : -2 ^ 63 ≤ number.toInt := number.le_toInt
  have hhigh : number.toInt < 2 ^ 63 := number.toInt_lt
  rw [Value.toList_integerText]
  split
  · rename_i hneg
    rw [List.cons_append, number?, unsignedNumber?_toDigits (m := number.toInt) (by rw [if_pos rfl]; omega) hlow hhigh
      (by omega) hrest, Int64.ofInt_toInt]
  · rename_i hpos
    have hsign : ∀ more, Nat.toDigits 10 number.toInt.natAbs ++ rest ≠ '-' :: more := by
      obtain ⟨d, ds, hds, hd⟩ := Decimal.exists_toDigits number.toInt.natAbs
      rintro more heq
      rw [hds] at heq
      exact absurd ((List.cons.inj heq).1 ▸ hd) (by decide)
    rw [number?, unsignedNumber?_toDigits (m := number.toInt) (by rw [if_neg (by decide)]; omega) hlow hhigh
      (by simp) hrest, Int64.ofInt_toInt]
    exact hsign

/-! ## Values -/

/-- A blank between tokens is a blank of any text. -/
theorem isBlank_of_text {c : Char} (h : Text.isBlank c = false) : isBlank c = false := by
  by_contra hblank
  simp only [isBlank, Bool.not_eq_false, Bool.or_eq_true, decide_eq_true_eq] at hblank
  rcases hblank with ((rfl | rfl) | rfl) | rfl <;> exact absurd h (by decide)

theorem isBlank_of_number {c : Char} (h : c = '-' ∨ c.isDigit = true) : Text.isBlank c = false := by
  have hrange : 45 ≤ c.toNat ∧ c.toNat ≤ 57 := by
    rcases h with rfl | hdigit
    · decide
    · simp only [Char.isDigit, Bool.and_eq_true, decide_eq_true_eq, UInt32.le_iff_toNat_le] at hdigit
      exact ⟨Nat.le_trans (by decide) hdigit.1, hdigit.2⟩
  simp only [Text.isBlank, Bool.or_eq_false_iff, Bool.and_eq_false_iff, decide_eq_false_iff_not, beq_eq_false_iff_ne]
  omega

/-- What an exact value begins with is neither a blank nor a closing bracket. -/
theorem exists_chars {v : Value} (h : v.Exact) : ∃ c more, chars v = c :: more ∧ Text.isBlank c = false ∧ c ≠ ']' := by
  cases v with
  | null => exact ⟨'n', _, rfl, rfl, by decide⟩
  | string text => exact ⟨'"', _, rfl, rfl, by decide⟩
  | integer number =>
    obtain ⟨c, more, hc, hfirst⟩ := exists_integerText number
    refine ⟨c, more, hc, isBlank_of_number hfirst, ?_⟩
    rintro rfl
    exact absurd hfirst (by decide)
  | float number => exact h.elim
  | boolean truth =>
    cases truth
    · exact ⟨'f', _, rfl, rfl, by decide⟩
    · exact ⟨'t', _, rfl, rfl, by decide⟩
  | list items => exact ⟨'[', _, rfl, rfl, by decide⟩
  | map fields => exact ⟨'{', _, rfl, rfl, by decide⟩

variable {fuel room : Nat} {rest : List Char}

theorem skipBlanks_cons {c : Char} (h : isBlank c = false) : skipBlanks (c :: rest) = c :: rest :=
  List.dropWhile_cons_of_neg (by rw [h]; decide)

/-- What begins like a number is read as one. -/
theorem value?_number {c : Char} (h : c = '-' ∨ c.isDigit = true) :
    value? (fuel + 1) room (c :: rest) = number? (c :: rest) := by
  have hother : c ≠ '"' ∧ c ≠ '[' ∧ c ≠ '{' ∧ c ≠ 'n' ∧ c ≠ 't' ∧ c ≠ 'f' := by
    refine ⟨?_, ?_, ?_, ?_, ?_, ?_⟩ <;> (rintro rfl; exact absurd h (by decide))
  obtain ⟨hquote, hbracket, hbrace, hn, ht, hf⟩ := hother
  rw [value?, skipBlanks_cons (isBlank_of_text (isBlank_of_number h))]
  split <;> simp_all

/-- A list with items. -/
theorem value?_list {items : List Value} {c : Char} {cs more : List Char} (hblank : isBlank c = false) (hc : c ≠ ']')
    (h : items? fuel room (c :: cs) = some (items, more)) :
    value? (fuel + 1) (room + 1) ('[' :: c :: cs) = some (.list items, more) := by
  rw [value?, skipBlanks_cons rfl]
  simp only [skipBlanks_cons hblank]
  split
  · rename_i heq
    exact absurd (List.cons.inj heq).1 hc
  · rw [h, Option.map_some]

/-- A map with fields, the first of which begins with its name. -/
theorem value?_map {fields : Fields} {cs more : List Char}
    (h : fields? fuel room [] ('"' :: cs) = some (fields, more)) :
    value? (fuel + 1) (room + 1) ('{' :: '"' :: cs) = some (.map fields, more) := by
  rw [value?, skipBlanks_cons rfl]
  simp only [skipBlanks_cons (show isBlank '"' = false from rfl)]
  show Option.map _ (fields? fuel room [] ('"' :: cs)) = _
  rw [h, Option.map_some]

theorem charsItems_cons (item other : Value) (items : List Value) :
    charsItems (item :: other :: items) = chars item ++ ',' :: charsItems (other :: items) := by
  rw [charsItems]
  exact nofun

theorem charsFields_cons (name : String) (value : Value) (field : String × Value) (fields : Fields) :
    charsFields ((name, value) :: field :: fields) =
      quote name ++ ':' :: chars value ++ ',' :: charsFields (field :: fields) := by
  rw [charsFields]
  exact nofun

/-- What a list of items begins with. -/
theorem exists_charsItems {item : Value} {items : List Value} (h : item.Exact) :
    ∃ c more, charsItems (item :: items) = c :: more ∧ Text.isBlank c = false ∧ c ≠ ']' := by
  obtain ⟨c, more, hc, hfirst⟩ := exists_chars h
  cases items with
  | nil => exact ⟨c, more, by rw [charsItems, hc], hfirst⟩
  | cons other items => exact ⟨c, _, by rw [charsItems_cons, hc, List.cons_append], hfirst⟩

/-- What a list of fields begins with. -/
theorem exists_charsFields (field : String × Value) (fields : Fields) :
    ∃ more, charsFields (field :: fields) = '"' :: more := by
  cases fields with
  | nil => exact ⟨_, rfl⟩
  | cons other fields => exact ⟨_, charsFields_cons field.1 field.2 other fields⟩

theorem quote_append (text : String) (rest : List Char) :
    quote text ++ rest = '"' :: (text.toList.flatMap escape ++ '"' :: rest) := by
  rw [quote, List.append_assoc, List.cons_append, List.singleton_append]

/-- A field of a map is set once its value has been read; others follow behind a comma. -/
theorem fields?_comma {before : Fields} {name : String} {value : Value} {more : List Char}
    (h : value? fuel room more = some (value, ',' :: rest)) :
    fields? (fuel + 1) room before (quote name ++ ':' :: more) = fields? fuel room (before.set name value) rest := by
  rw [quote_append, fields?, skipBlanks_cons rfl]
  simp only [string?_quote, skipBlanks_cons (show isBlank ':' = false from rfl), h, Option.bind_eq_bind,
    Option.bind_some, String.ofList_toList, skipBlanks_cons (show isBlank ',' = false from rfl)]

/-- A field in front of the closing brace is the last one. -/
theorem fields?_brace {before : Fields} {name : String} {value : Value} {more : List Char}
    (h : value? fuel room more = some (value, '}' :: rest)) :
    fields? (fuel + 1) room before (quote name ++ ':' :: more) = some (before.set name value, rest) := by
  rw [quote_append, fields?, skipBlanks_cons rfl]
  simp only [string?_quote, skipBlanks_cons (show isBlank ':' = false from rfl), h, Option.bind_eq_bind,
    Option.bind_some, String.ofList_toList, skipBlanks_cons (show isBlank '}' = false from rfl)]

/-- The names before and behind a field that is set. -/
theorem set_eq_append {before fields : Fields} {name : String} {value : Value}
    (h : (before ++ (name, value) :: fields).names.Nodup) : before.set name value = before ++ [(name, value)] := by
  refine Fields.set_of_not_mem fun hmem => ?_
  rw [Fields.names, List.map_append] at h
  exact (List.nodup_append.1 h).2.2 name hmem name List.mem_cons_self rfl

/-- There is room for a list or map and for what is within it. -/
theorem exists_room {n room : Nat} (h : n + 1 ≤ room) : ∃ m, room = m + 1 ∧ n ≤ m := by
  obtain ⟨m, rfl⟩ := Nat.exists_eq_add_of_le' h
  exact ⟨m + n, by omega, Nat.le_add_left n m⟩

mutual

/-- A value is read back, with anything behind it. -/
theorem value?_chars : ∀ {v : Value} {fuel room : Nat} {rest : List Char}, v.Exact → v.nesting ≤ room →
    2 * (chars v).length ≤ fuel + 1 → Closed rest → value? (fuel + 1) room (chars v ++ rest) = some (v, rest)
  | .null, fuel, room, rest, _, _, _, _ => rfl
  | .string text, fuel, room, rest, _, _, _, _ => by
    rw [chars, quote_append, value?, skipBlanks_cons rfl]
    simp only [string?_quote, Option.map_some, String.ofList_toList]
  | .integer number, fuel, room, rest, _, _, _, hrest => by
    obtain ⟨c, more, hc, hfirst⟩ := exists_integerText number
    have hread := number?_integerText number hrest
    rw [chars]
    rw [hc] at hread ⊢
    rw [List.cons_append, value?_number hfirst, ← List.cons_append, hread]
  | .boolean true, fuel, room, rest, _, _, _, _ => rfl
  | .boolean false, fuel, room, rest, _, _, _, _ => rfl
  | .list [], fuel, room, rest, _, hroom, _, _ => by
    obtain ⟨room, rfl, -⟩ := exists_room hroom
    rfl
  | .list (item :: items), fuel, room, rest, hexact, hroom, hfuel, _ => by
    -- both brackets count for the fuel, which is one less for each list that is entered and for each of its items
    have hlength : (chars (.list (item :: items))).length = (charsItems (item :: items)).length + 2 := by
      simp [chars]
    obtain ⟨room, rfl, hinner⟩ := exists_room hroom
    obtain ⟨fuel, rfl⟩ : ∃ n, fuel = n + 2 := ⟨fuel - 2, by omega⟩
    have hitems := @items?_charsItems _ _ _ rest (List.cons_ne_nil item items) hexact hinner
      (show 2 * (charsItems (item :: items)).length + 1 ≤ fuel + 2 by omega)
    obtain ⟨c, more, hc, hblank, hbracket⟩ := @exists_charsItems _ items hexact.1
    rw [hc] at hitems
    rw [chars, hc, List.append_assoc]
    exact value?_list (isBlank_of_text hblank) hbracket hitems
  | .map [], fuel, room, rest, _, hroom, _, _ => by
    obtain ⟨room, rfl, -⟩ := exists_room hroom
    rfl
  | .map (field :: fields), fuel, room, rest, hexact, hroom, hfuel, _ => by
    have hlength : (chars (.map (field :: fields))).length = (charsFields (field :: fields)).length + 2 := by
      simp [chars]
    obtain ⟨room, rfl, hinner⟩ := exists_room hroom
    obtain ⟨fuel, rfl⟩ : ∃ n, fuel = n + 2 := ⟨fuel - 2, by omega⟩
    have hfields := @fields?_charsFields _ [] _ _ rest (List.cons_ne_nil field fields) hexact.2 hexact.1 hinner
      (show 2 * (charsFields (field :: fields)).length + 1 ≤ fuel + 2 by omega)
    obtain ⟨more, hmore⟩ := exists_charsFields field fields
    rw [hmore] at hfields
    rw [chars, hmore, List.append_assoc]
    exact value?_map hfields

/-- The items of a list are read back up to its closing bracket. -/
theorem items?_charsItems : ∀ {items : List Value} {fuel room : Nat} {rest : List Char}, items ≠ [] →
    Value.ExactItems items → Value.nestingItems items ≤ room → 2 * (charsItems items).length + 1 ≤ fuel + 2 →
    items? (fuel + 2) room (charsItems items ++ ']' :: rest) = some (items, rest)
  | [item], fuel, room, rest, _, hexact, hroom, hfuel => by
    have hitem := @value?_chars item _ _ (']' :: rest) hexact.1 (Nat.le_trans (Nat.le_max_left _ _) hroom)
      (Nat.le_of_succ_le_succ hfuel) (.cons (by simp))
    rw [charsItems, items?, hitem]
    rfl
  | item :: other :: items, fuel, room, rest, _, hexact, hroom, hfuel => by
    rw [charsItems_cons, List.length_append, List.length_cons] at hfuel
    obtain ⟨fuel, rfl⟩ : ∃ n, fuel = n + 1 := ⟨fuel - 1, by omega⟩
    have hitem := @value?_chars item _ _ (',' :: (charsItems (other :: items) ++ ']' :: rest)) hexact.1
      (Nat.le_trans (Nat.le_max_left _ _) hroom) (show _ ≤ fuel + 2 by omega) (.cons (by simp))
    have hitems := @items?_charsItems _ _ _ rest (List.cons_ne_nil other items) hexact.2
      (Nat.le_trans (Nat.le_max_right _ _) hroom) (show _ ≤ fuel + 2 by omega)
    rw [charsItems_cons, List.append_assoc, List.cons_append, items?, hitem]
    simp only [Option.bind_eq_bind, Option.bind_some, skipBlanks_cons (show isBlank ',' = false from rfl), hitems]

/-- The fields of a map are set behind those before them, up to the closing brace. -/
theorem fields?_charsFields : ∀ {fields before : Fields} {fuel room : Nat} {rest : List Char}, fields ≠ [] →
    Value.ExactFields fields → (before ++ fields).names.Nodup → Value.nestingFields fields ≤ room →
    2 * (charsFields fields).length + 1 ≤ fuel + 2 →
    fields? (fuel + 2) room before (charsFields fields ++ '}' :: rest) = some (before ++ fields, rest)
  | [(name, value)], before, fuel, room, rest, _, hexact, hnames, hroom, hfuel => by
    rw [charsFields, List.length_append, List.length_cons] at hfuel
    have hvalue := @value?_chars value _ _ ('}' :: rest) hexact.1
      (Nat.le_trans (Nat.le_max_left _ _) hroom) (show _ ≤ fuel + 1 by omega) (.cons (by simp))
    rw [charsFields, List.append_assoc, List.cons_append, fields?_brace hvalue, set_eq_append hnames]
  | (name, value) :: field :: fields, before, fuel, room, rest, _, hexact, hnames, hroom, hfuel => by
    rw [charsFields_cons, List.length_append, List.length_append, List.length_cons, List.length_cons] at hfuel
    obtain ⟨fuel, rfl⟩ : ∃ n, fuel = n + 1 := ⟨fuel - 1, by omega⟩
    have hvalue := @value?_chars value _ _ (',' :: (charsFields (field :: fields) ++ '}' :: rest)) hexact.1
      (Nat.le_trans (Nat.le_max_left _ _) hroom) (show _ ≤ fuel + 2 by omega) (.cons (by simp))
    have hset := set_eq_append hnames
    rw [← List.singleton_append, ← List.append_assoc] at hnames
    have hfields := @fields?_charsFields _ _ _ _ rest (List.cons_ne_nil field fields) hexact.2 hnames
      (Nat.le_trans (Nat.le_max_right _ _) hroom) (show _ ≤ fuel + 2 by omega)
    rw [charsFields_cons, List.append_assoc, List.append_assoc, List.cons_append, List.cons_append,
      fields?_comma hvalue, hset, hfields, List.append_assoc, List.singleton_append]

end

/-- The text of an exact value without too many lists and maps within each other is read back. -/
theorem ofChars?_chars {v : Value} (hexact : v.Exact) (hnesting : v.nesting ≤ maxDepth) :
    ofChars? (chars v) = some v := by
  have hclosed : Closed [] := nofun
  have hread := @value?_chars v (2 * (chars v).length + 1) _ _ hexact hnesting (by omega) hclosed
  rw [List.append_nil] at hread
  rw [ofChars?, hread]
  rfl

end Json

/-- **What is printed is read back.** For an exact value with at most 127 lists and maps within each other, a parser of
JSON texts reads from its JSON text the same value, with the names of all maps in the same order. -/
theorem Format.parse_print {v : Value} (hexact : v.Exact) (hnesting : v.nesting ≤ 127)
    (find : Option (String → Option Parser)) (depth : Nat) (name : String) :
    parse find depth ⟨name, .json⟩ (Json.print v).toList = .ok v := by
  obtain ⟨c, more, hc, hblank, -⟩ := Json.exists_chars hexact
  have hsome : ¬(Json.chars v).all Text.isBlank = true := by
    rw [hc, List.all_cons, hblank]
    exact Bool.false_ne_true
  rw [Json.print, String.toList_ofList, parse, parseJson, if_neg hsome, Json.ofChars?_chars hexact hnesting]

namespace Json

/-- A map with names and a text that are escaped, the least integer and empty lists and maps. -/
def escapedValue : Value :=
  .map [("\"ä", .list [.integer Int64.minValue, .list [], .string "\x01\n😀\\u", .integer 0]), ("", .map []),
    ("z", .boolean false), ("a", .null)]

end Json

/-- This map is printed with escapes and read back. -/
theorem Format.parse_print_escaped : Json.escapedValue.Exact ∧ Json.escapedValue.nesting ≤ 127 ∧
    Json.print Json.escapedValue = "\x7b\"\\\"ä\":[-9223372036854775808,[],\"\\u0001\\n😀\\\\u\",0]," ++
      "\"\":\x7b\x7d,\"z\":false,\"a\":null\x7d" ∧
    parse none 0 ⟨"json", .json⟩ (Json.print Json.escapedValue).toList = .ok Json.escapedValue :=
  have hexact : Json.escapedValue.Exact := by
    simp [Json.escapedValue, Value.Exact, Value.ExactItems, Value.ExactFields, Fields.names]
  have hnesting : Json.escapedValue.nesting ≤ 127 := by decide
  ⟨hexact, hnesting, by cbv, parse_print hexact hnesting none 0 "json"⟩

end RecordServer
