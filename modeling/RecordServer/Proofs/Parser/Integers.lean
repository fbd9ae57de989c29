import RecordServer.Proofs.Parser.Accepted

/-!
# Integers among ignored characters

Ignored characters which are neither digits nor a minus sign do not change what a text stands for, wherever they are
inserted (`Format.Inserted`): without them a decimal text (`Decimal.Writes`) is one of the same integer
(`Format.writes_clean`). So integers of 64 bits are read back from their texts, and all others are refused
(`Format.parse_inserted`).
-/

namespace RecordServer

namespace Format

open Decimal (IsSign Writes)

/-- A text in which ignored characters have been inserted, any number of them and at any places. -/
inductive Inserted (ignored : String) : List Char → List Char → Prop
  | nil : Inserted ignored [] []
  | keep (c : Char) {text cs : List Char} (h : Inserted ignored text cs) : Inserted ignored (c :: text) (c :: cs)
  | insert {c : Char} (hc : c ∈ ignored.toList) {text cs : List Char} (h : Inserted ignored text cs) :
      Inserted ignored text (c :: cs)

variable {ignored : String} {text cs : List Char} {n : Int} {c : Char}

/-- What is left of a text is left with more ignored characters, too. -/
theorem clean_of_inserted (h : Inserted ignored text cs) : clean ignored cs = clean ignored text := by
  induction h with
  | nil => rfl
  | keep c h ih => rw [clean, clean, List.filter_cons, List.filter_cons, ← clean, ← clean, ih]
  | insert hc h ih =>
    rw [← ih]
    exact List.filter_cons_of_neg (by simp [hc])

/-- Every text is what is left of it, with its ignored characters inserted. -/
theorem inserted_clean (ignored : String) (cs : List Char) : Inserted ignored (clean ignored cs) cs := by
  induction cs with
  | nil => exact .nil
  | cons c cs ih =>
    rw [clean, List.filter_cons, ← clean]
    by_cases hc : c ∈ ignored.toList
    · rw [if_neg (by simpa using hc)]
      exact .insert hc ih
    · rw [if_pos (by simpa using hc)]
      exact .keep c ih

/-- What is left of a decimal text is one of the same integer: of its characters only a plus sign can be ignored. -/
theorem writes_clean (hdigit : ∀ c ∈ ignored.toList, c.isDigit = false) (hminus : '-' ∉ ignored.toList)
    (h : Writes n text) : Writes n (clean ignored text) := by
  obtain ⟨s, digits, rfl, hs, hne, hdigits, rfl⟩ := h
  have hkept : ∀ c ∈ digits, c ∉ ignored.toList := fun c hc hignored =>
    Bool.false_ne_true ((hdigit c hignored).symm.trans (hdigits c hc))
  have hclean : clean ignored (s ++ digits) = clean ignored s ++ digits := by
    rw [clean, List.filter_append, ← clean, List.filter_eq_self.2 fun c hc => by simpa using hkept c hc]
  rw [hclean]
  rcases hs with rfl | rfl | rfl
  · exact ⟨[], digits, rfl, .inl rfl, hne, hdigits, rfl⟩
  · refine ⟨['-'], digits, ?_, .inr (.inl rfl), hne, hdigits, rfl⟩
    rw [clean, List.filter_cons_of_pos (by simpa using hminus), List.filter_nil]
  · by_cases hplus : '+' ∈ ignored.toList
    · refine ⟨[], digits, ?_, .inl rfl, hne, hdigits, rfl⟩
      rw [clean, List.filter_cons_of_neg (by simpa using hplus), List.filter_nil]
    · refine ⟨['+'], digits, ?_, .inr (.inr rfl), hne, hdigits, rfl⟩
      rw [clean, List.filter_cons_of_pos (by simpa using hplus), List.filter_nil]

instance (n : Int) : Decidable (IsInt64 n) :=
  inferInstanceAs (Decidable (_ ∧ _))

theorem isInt64_toInt (n : Int64) : IsInt64 n.toInt := by
  have hlow : -2 ^ 63 ≤ n.toInt := n.le_toInt
  have hhigh : n.toInt < 2 ^ 63 := n.toInt_lt
  exact ⟨by omega, by omega⟩

/-- A decimal text with ignored characters in it is parsed as the integer if this has 64 bits, and is refused
otherwise. -/
theorem parseInteger_of_writes (hdigit : ∀ c ∈ ignored.toList, c.isDigit = false) (hminus : '-' ∉ ignored.toList)
    (h : Writes n text) (hcs : Inserted ignored text cs) : parseInteger ignored cs =
      if IsInt64 n then .ok (.integer (Int64.ofInt n)) else .error (Cause.notInteger (String.ofList cs)) := by
  have hwrites := writes_clean hdigit hminus h
  rw [← clean_of_inserted hcs] at hwrites
  have hne : clean ignored cs ≠ [] := by
    obtain ⟨s, digits, hclean, -, hne, -⟩ := hwrites
    rw [hclean]
    exact List.append_ne_nil_of_right_ne_nil s hne
  unfold parseInteger
  simp only [if_neg hne, Decimal.integer?_of_writes hwrites, Option.bind_some, ofInteger?]
  by_cases hn : IsInt64 n
  · rw [if_pos hn, if_pos (show _ ∧ _ from hn)]
  · rw [if_neg hn, if_neg (show ¬(_ ∧ _) from hn)]

/-- **Integers survive ignored characters.** If neither a digit nor the minus sign is ignored, the decimal text of an
integer of 64 bits is parsed as this integer wherever ignored characters are inserted, and its key is the text without
them. The decimal texts of all other integers, also with zeros or a plus sign in front, are refused. -/
theorem parse_inserted (hdigit : ∀ c ∈ ignored.toList, c.isDigit = false) (hminus : '-' ∉ ignored.toList)
    (find : Option (String → Option Parser)) (depth : Nat) (name : String) :
    (∀ (n : Int64) (cs : List Char), Inserted ignored (toString n.toInt).toList cs →
      parse find depth ⟨name, .integer ignored⟩ cs = .ok (.integer n) ∧
        (Value.integer n).key? = some (toString n.toInt)) ∧
    (∀ n : Int, Writes n (toString n).toList) ∧
    ∀ (n : Int) (text cs : List Char), Writes n text → ¬IsInt64 n → Inserted ignored text cs →
      parse find depth ⟨name, .integer ignored⟩ cs = .error (Cause.notInteger (String.ofList cs)) := by
  refine ⟨fun n cs hcs => ⟨?_, rfl⟩, Decimal.writes_toString, fun n text cs htext hn hcs => ?_⟩
  · rw [parse, parseInteger_of_writes hdigit hminus (Decimal.writes_toString n.toInt) hcs, if_pos (isInt64_toInt n),
      Int64.ofInt_toInt]
  · rw [parse, parseInteger_of_writes hdigit hminus htext hcs, if_neg hn]

/-- The least integer of 64 bits between points is read, and the next one below is refused. -/
theorem parse_inserted_least :
    (∀ c ∈ ".".toList, c.isDigit = false) ∧ '-' ∉ ".".toList ∧
    (∃ n : Int64, Inserted "." (toString n.toInt).toList "-9.223.372.036.854.775.808.".toList ∧
      parse none 0 ⟨"n", .integer "."⟩ "-9.223.372.036.854.775.808.".toList = .ok (.integer n) ∧
      (Value.integer n).key? = some "-9223372036854775808") ∧
    ∃ n : Int, Writes n "-09223372036854775809".toList ∧ ¬IsInt64 n ∧
      Inserted "." "-09223372036854775809".toList ".-09223372036854775.809".toList ∧
      parse none 0 ⟨"n", .integer "."⟩ ".-09223372036854775.809".toList =
        .error (Cause.notInteger ".-09223372036854775.809") := by
  have hdigit : ∀ c ∈ ".".toList, c.isDigit = false := by simp
  have hminus : '-' ∉ ".".toList := by simp
  obtain ⟨hread, -, hrefused⟩ := parse_inserted hdigit hminus none 0 "n"
  have hleast : Inserted "." (toString (Int64.minValue).toInt).toList "-9.223.372.036.854.775.808.".toList :=
    inserted_clean "." "-9.223.372.036.854.775.808.".toList
  have hbelow : Writes (-9223372036854775809) "-09223372036854775809".toList :=
    ⟨['-'], "09223372036854775809".toList, rfl, .inr (.inl rfl), by simp, by simp, by decide⟩
  have houtside : ¬IsInt64 (-9223372036854775809) := by decide
  have hinserted : Inserted "." "-09223372036854775809".toList ".-09223372036854775.809".toList :=
    inserted_clean "." ".-09223372036854775.809".toList
  exact ⟨hdigit, hminus, ⟨Int64.minValue, hleast, hread _ _ hleast⟩,
    -9223372036854775809, hbelow, houtside, hinserted, hrefused _ _ _ hbelow houtside hinserted⟩

end Format

end RecordServer
