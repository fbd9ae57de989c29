import Mathlib.Tactic.SplitIfs
import RecordServer.Input.Open
import RecordServer.Proofs.Outcome

/-!
# Random access

What a reader of single records stands on. The pages of some bytes give what is behind any position
(`Pages.after_ofBytes`). A reader that has loaded records at any positions (`Input.behind`) still has the file which
was opened (`Input.pages_behind`). An input that has been created has been made from the bytes of a file
(`Input.of_create`), which a reader opens (`Input.reader_of_file`).
-/

namespace RecordServer

/-! ## Pages -/

namespace Pages

/-- The tails there are already stay. -/
theorem getElem?_tailsFrom_of_lt : ∀ (n : Nat) {tails : Array (List UInt8)} (bytes : List UInt8) {page : Nat},
    page < tails.size → (tailsFrom n tails bytes)[page]? = tails[page]?
  | 0, _, _, _, _ => rfl
  | n + 1, tails, bytes, page, h => by
    have hpushed : page < (tails.push bytes).size := by
      rw [Array.size_push]
      omega
    rw [tailsFrom, getElem?_tailsFrom_of_lt n _ hpushed, Array.getElem?_push_lt h, Array.getElem?_eq_getElem h]

/-- Behind the tails there are already, there is one for each page. -/
theorem getElem?_tailsFrom : ∀ (n : Nat) (tails : Array (List UInt8)) (bytes : List UInt8) (page : Nat),
    (tailsFrom n tails bytes)[tails.size + page]? = if page < n then some (bytes.drop (pageSize * page)) else none
  | 0, tails, bytes, page => by simp [tailsFrom]
  | n + 1, tails, bytes, 0 => by
    rw [tailsFrom, Nat.add_zero, getElem?_tailsFrom_of_lt n _ (by simp)]
    simp
  | n + 1, tails, bytes, page + 1 => by
    have hplace : tails.size + (page + 1) = (tails.push bytes).size + page := by
      rw [Array.size_push]
      omega
    rw [tailsFrom, hplace, getElem?_tailsFrom n, List.drop_drop, Nat.mul_add, Nat.mul_one,
      Nat.add_comm (pageSize * page)]
    simp

/-- **The pages of some bytes give what is behind any position.** -/
theorem after_ofBytes (bytes : List UInt8) (position : Nat) : (ofBytes bytes).after position = bytes.drop position := by
  have hdivided : pageSize * (position / pageSize) + position % pageSize = position := Nat.div_add_mod position pageSize
  have htail := getElem?_tailsFrom (bytes.length / pageSize + 1) #[] bytes (position / pageSize)
  rw [Array.size_empty, Nat.zero_add] at htail
  unfold after ofBytes
  simp only [htail]
  split_ifs with hpage
  · simp only
    rw [List.drop_drop, hdivided]
  · -- the position lies behind the last page
    have hbehind : bytes.length / pageSize < position / pageSize := by omega
    have hlength : bytes.length ≤ position := by
      refine Nat.le_of_lt (Nat.lt_of_not_le fun hle => ?_)
      exact absurd (Nat.div_le_div_right hle) (Nat.not_le_of_lt hbehind)
    simp [List.drop_eq_nil_of_le hlength]

@[simp] theorem size_ofBytes (bytes : List UInt8) : (ofBytes bytes).size = bytes.length := rfl

end Pages

/-! ## Readers -/

namespace Input

variable {fs : FileSystem} {i : Input}

/-- The reader behind loading the records at some positions one after the other. -/
def behind (i : Input) (r : Reader) (before : List Position) : Reader := before.foldl (fun r p => (i.load r p).2) r

/-- Loading a record keeps the file that is open. -/
theorem pages_load (i : Input) (r : Reader) (position : Position) : (i.load r position).2.pages = r.pages := by
  unfold load
  split
  · rfl
  · rfl

theorem pages_behind (i : Input) : ∀ (before : List Position) (r : Reader), (i.behind r before).pages = r.pages
  | [], _ => rfl
  | p :: before, r => (pages_behind i before _).trans (pages_load i r p)

/-- What is loaded from some bytes. -/
theorem load_eq {r : Reader} {bytes : List UInt8} (hr : r.pages = some (.ofBytes bytes)) (position : Position) :
    i.load r position = ((i.loadFrom (.ofBytes bytes) r.head position).1,
      { r with head := (i.loadFrom (.ofBytes bytes) r.head position).2 }) := by
  unfold load
  rw [hr]

/-! ## Files -/

/-- The file of an input that has been created, and what has been found in it. -/
theorem of_create {parsers : Parsers} {place name path : String} {config : Config.Input}
    (h : create fs parsers place name path config = .ok i) : ∃ f, fs.file? i.path = some f ∧
      examine parsers place path f.content config.layout = .ok (i.content, i.size) := by
  unfold create at h
  split at h
  · cases h
  · rename_i f hf
    obtain ⟨⟨content, size⟩, hexamine, hi⟩ := ok_of_bind h
    obtain rfl := Except.ok.inj hi
    exact ⟨f, hf, hexamine⟩

variable {f : File}

theorem contents_of_file (hf : fs.file? i.path = some f) : i.contents fs = .ok (some f.content) := by
  unfold contents
  rw [hf]

theorem records_of_file (hf : fs.file? i.path = some f) : i.records fs = .ok (i.recordsOf f.content) := by
  unfold records
  rw [contents_of_file hf]
  rfl

theorem positions_of_file (hf : fs.file? i.path = some f) (hc : ∀ spans, i.content ≠ .elements spans) :
    i.positions fs = .ok (i.positionsOf f.content) := by
  unfold positions
  split
  · exact absurd ‹_› (hc _)
  · rw [contents_of_file hf]
    rfl

/-- A reader opens the file at its beginning. -/
theorem reader_of_file (hf : fs.file? i.path = some f) : i.reader fs = .ok ⟨some (.ofBytes f.content), none⟩ := by
  unfold reader
  rw [contents_of_file hf]
  rfl

end Input

end RecordServer
