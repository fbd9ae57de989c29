import Mathlib.Data.List.TakeWhile
import RecordServer.Index.SuffixFile

/-!
# Searching suffixes

Bisection finds where the places end which are below what is searched for, if these come first (`lowerBound_spec`).
Bytes which begin with a text are not below it, and nothing else comes between the text and them
(`isPrefix_of_between`). So the entries that begin with a text are next to each other if entries are sorted, and a
search finds exactly these (`SuffixFile.mem_matching`).
-/

namespace RecordServer

/-! ## The order of bytes -/

/-- What begins with a text is not below it. -/
theorem not_lt_of_isPrefix : ∀ {text bytes : List UInt8}, text <+: bytes → ¬bytes < text
  | [], bytes, _ => List.not_lt_nil bytes
  | b :: text, [], h => absurd (List.prefix_nil.1 h) (List.cons_ne_nil b text)
  | b :: text, c :: bytes, h => by
    obtain ⟨rfl, hrest⟩ := List.cons_prefix_cons.1 h
    rw [List.cons_lt_cons_iff]
    rintro (hlt | ⟨-, hlt⟩)
    · exact absurd hlt (UInt8.lt_irrefl b)
    · exact not_lt_of_isPrefix hrest hlt

/-- What comes between a text and something that begins with it begins with it, too. -/
theorem isPrefix_of_between : ∀ {text bytes more : List UInt8}, ¬bytes < text → ¬more < bytes → text <+: more →
    text <+: bytes
  | [], bytes, _, _, _, _ => List.nil_prefix
  | b :: text, _, [], _, _, h => absurd (List.prefix_nil.1 h) (List.cons_ne_nil b text)
  | b :: text, [], _ :: _, habove, _, _ => absurd (List.nil_lt_cons b text) habove
  | b :: text, c :: bytes, d :: more, habove, hbelow, h => by
    obtain ⟨rfl, hrest⟩ := List.cons_prefix_cons.1 h
    rw [List.cons_lt_cons_iff, not_or, not_and] at habove hbelow
    obtain rfl : c = b := UInt8.le_antisymm (UInt8.not_lt.1 hbelow.1) (UInt8.not_lt.1 habove.1)
    exact List.cons_prefix_cons.2 ⟨rfl, isPrefix_of_between (habove.2 rfl) (hbelow.2 rfl) hrest⟩

namespace SuffixFile

/-! ## Bisection -/

/-- **Bisection finds the first place which is not below what is searched for**, if those below come first. -/
theorem lowerBound_spec {isBelow : Nat → Bool} {low high : Nat} (h : low ≤ high)
    (hbelow : ∀ m n, low ≤ m → m ≤ n → n < high → isBelow n → isBelow m) :
    lowerBound isBelow low high ≤ high ∧ (∀ n, low ≤ n → n < lowerBound isBelow low high → isBelow n) ∧
      ∀ n, lowerBound isBelow low high ≤ n → n < high → ¬isBelow n := by
  fun_induction lowerBound isBelow low high with
  | case1 low high hlt middle hmiddle ih =>
    obtain ⟨hle, hfirst, hlast⟩ := ih (by omega) fun m n hm => hbelow m n (by omega)
    refine ⟨hle, fun n hlow hn => ?_, hlast⟩
    by_cases hn' : n ≤ middle
    · exact hbelow n middle hlow hn' (by omega) hmiddle
    · exact hfirst n (by omega) hn
  | case2 low high hlt middle hmiddle ih =>
    obtain ⟨hle, hfirst, hlast⟩ := ih (by omega) fun m n hm hmn hn => hbelow m n hm hmn (by omega)
    refine ⟨by omega, hfirst, fun n hn hhigh => ?_⟩
    by_cases hn' : n < middle
    · exact hlast n hn hn'
    · exact fun hisBelow => hmiddle (hbelow middle n (by omega) (by omega) hhigh hisBelow)
  | case3 low high hge =>
    exact ⟨h, fun n hlow hn => by omega, fun n hn hhigh => by omega⟩

/-! ## Entries -/

/-- Entries are sorted by the bytes of their suffixes. -/
def Sorted (keys : List UInt8) (entries : List SuffixEntry) : Prop :=
  entries.Pairwise fun a b => ¬b.bytes keys < a.bytes keys

/-- Among elements of which those with a property come first, it is these that are taken as long as they have it. -/
theorem takeWhile_eq_filter {α : Type} {p : α → Bool} : ∀ {list : List α}, list.Pairwise (fun a b => p b → p a) →
    list.takeWhile p = list.filter p
  | [], _ => rfl
  | a :: list, h => by
    obtain ⟨hfirst, hrest⟩ := List.pairwise_cons.1 h
    cases ha : p a with
    | true => rw [List.takeWhile_cons_of_pos ha, List.filter_cons_of_pos ha, takeWhile_eq_filter hrest]
    | false =>
      have hnone : list.filter p = [] := List.filter_eq_nil_iff.2 fun b hb hpb => by
        simp [hfirst b hb hpb] at ha
      rw [List.takeWhile_cons_of_neg (by simp [ha]), List.filter_cons_of_neg (by simp [ha]), hnone]

/-- Where the entries end which are below a text. -/
theorem lowerBound_entries {keys text : List UInt8} {entries : List SuffixEntry} (h : Sorted keys entries) :
    ∃ first, lowerBound (fun n => decide ((entries.getD n default).bytes keys < text)) 0 entries.length = first ∧
      (∀ e ∈ entries.take first, e.bytes keys < text) ∧ ∀ e ∈ entries.drop first, ¬e.bytes keys < text := by
  have hget : ∀ {n : Nat} (hn : n < entries.length), entries.getD n default = entries[n] := fun hn => by simp [hn]
  have hcomes : ∀ m n, 0 ≤ m → m ≤ n → n < entries.length → decide ((entries.getD n default).bytes keys < text) →
      decide ((entries.getD m default).bytes keys < text) := by
    intro m n _ hmn hn hbelow
    rw [hget hn, decide_eq_true_eq] at hbelow
    rw [hget (Nat.lt_of_le_of_lt hmn hn), decide_eq_true_eq]
    rcases Nat.lt_or_eq_of_le hmn with hlt | rfl
    · exact List.lt_of_le_of_lt (List.pairwise_iff_getElem.1 h m n _ hn hlt) hbelow
    · exact hbelow
  obtain ⟨hle, hfirst, hlast⟩ := lowerBound_spec (Nat.zero_le _) hcomes
  refine ⟨_, rfl, fun e he => ?_, fun e he => ?_⟩
  · obtain ⟨n, hn, rfl⟩ := List.mem_take_iff_getElem.1 he
    have hbelow := hfirst n (Nat.zero_le n) (by omega)
    rwa [hget (by omega), decide_eq_true_eq] at hbelow
  · obtain ⟨n, hn, rfl⟩ := List.mem_drop_iff_getElem.1 he
    have habove := hlast _ (Nat.le_add_right _ n) (by omega)
    rwa [hget (by omega), decide_eq_true_eq] at habove

/-- **A search finds exactly the entries which begin with the text.** -/
theorem mem_matching {keys text : List UInt8} {entries : List SuffixEntry} (h : Sorted keys entries) {p : Position} :
    p ∈ matching keys entries text ↔ ∃ e ∈ entries, text <+: e.bytes keys ∧ e.position.toNat = p := by
  obtain ⟨first, hfirst, hbelow, habove⟩ := @lowerBound_entries keys text entries h
  have hrest : (entries.drop first).takeWhile (fun e => text.isPrefixOf (e.bytes keys)) =
      (entries.drop first).filter (fun e => text.isPrefixOf (e.bytes keys)) := by
    refine takeWhile_eq_filter ((h.sublist (List.drop_sublist first entries)).imp_of_mem fun {a b} ha hb hab => ?_)
    simpa only [List.isPrefixOf_iff_prefix] using isPrefix_of_between (habove a ha) hab
  rw [matching, hfirst, hrest]
  simp only [List.mem_map, List.mem_filter, List.isPrefixOf_iff_prefix, and_assoc]
  constructor
  · rintro ⟨e, he, hprefix, hp⟩
    exact ⟨e, List.mem_of_mem_drop he, hprefix, hp⟩
  · rintro ⟨e, he, hprefix, hp⟩
    refine ⟨e, ?_, hprefix, hp⟩
    rw [← List.take_append_drop first entries] at he
    exact (List.mem_append.1 he).resolve_left fun he => not_lt_of_isPrefix hprefix (hbelow e he)

end SuffixFile

end RecordServer
