import RecordServer.Input.Basic
import RecordServer.Proofs.Outcome

/-!
# The properties of records

The records of a table have the columns as their properties, and those of a document the properties which are declared
(`Input.mem_names_of_tabular`). The elements of an array may have any. So whatever there is in the file of an input, its
records have no other properties than it has (`Input.hasProperty_of_offers`).
-/

namespace RecordServer

/-- What succeeds within a context succeeds without it. -/
theorem ok_of_around {α : Type} {context : Context} {a : Except Fault α} {x : α} (h : context.around a = .ok x) :
    a = .ok x := by
  cases a with
  | error fault => cases h
  | ok y => exact h

namespace Fields

variable {fields : Fields} {name other : String} {value : Value}

/-- A name that is not present is set at the end. -/
theorem set_of_not_mem : ∀ {fields : Fields}, name ∉ fields.names → fields.set name value = fields ++ [(name, value)]
  | [], _ => rfl
  | field :: rest, h => by
    obtain ⟨hne, hrest⟩ := not_or.1 (mt List.mem_cons.2 h)
    rw [set, if_neg (Ne.symm hne), set_of_not_mem hrest, List.cons_append]

theorem mem_names_set : other ∈ (fields.set name value).names ↔ other ∈ fields.names ∨ other = name := by
  rw [names_set]
  split_ifs with h
  · refine ⟨.inl, ?_⟩
    rintro (hother | rfl)
    · exact hother
    · exact h
  · rw [List.mem_append, List.mem_singleton]

theorem mem_names_setLast : other ∈ (fields.setLast name value).names ↔ other ∈ fields.names ∨ other = name := by
  simp only [setLast, names, List.map_append, List.mem_append, List.map_singleton, List.mem_singleton]
  constructor
  · rintro (h | h)
    · obtain ⟨field, hfield, rfl⟩ := List.mem_map.1 h
      exact .inl (List.mem_map_of_mem (List.mem_filter.1 hfield).1)
    · exact .inr h
  · rintro (h | h)
    · obtain ⟨field, hfield, rfl⟩ := List.mem_map.1 h
      by_cases hname : field.1 = name
      · exact .inr hname
      · exact .inl (List.mem_map_of_mem (List.mem_filter.2 ⟨hfield, by simpa using hname⟩))
    · exact .inr h

/-- There is a value of each name. -/
theorem isSome_of_mem_names (h : name ∈ fields.names) : (fields.get? name).isSome := by
  obtain ⟨field, hfield, rfl⟩ := List.mem_map.1 h
  exact List.lookup_isSome_iff.2 ⟨field, hfield, beq_self_eq_true _⟩

end Fields

namespace Input

variable {i : Input} {position : Position} {name : String}

/-- The names of a row are those of the columns. -/
theorem mem_names_readCells : ∀ {columns : List Column} {row : Csv.Row} {fields all : Fields},
    readCells i position fields columns row = .ok all →
    (name ∈ all.names ↔ name ∈ fields.names ∨ ∃ c ∈ columns, c.name = name)
  | [], row, fields, all, h => by
    cases h
    simp
  | c :: columns, row, fields, all, h => by
    obtain ⟨value, rest, h⟩ : ∃ value rest, readCells i position (fields.set c.name value) columns rest = .ok all := by
      cases row with
      | nil => exact ⟨.null, [], h⟩
      | cons cell row =>
        obtain ⟨value, -, h⟩ := ok_of_bind h
        exact ⟨value, row, h⟩
    rw [mem_names_readCells h, Fields.mem_names_set, List.exists_mem_cons_iff, or_assoc, eq_comm]

/-- The names of an element are those of the properties. -/
theorem mem_names_extract {parsers : Parsers} {e : Xml.Element} : ∀ {properties : List (String × Xml.Property)}
    {fields all : Fields}, Xml.Property.extract parsers fields properties e = .ok all →
    (name ∈ all.names ↔ name ∈ fields.names ∨ ∃ p ∈ properties, p.1 = name)
  | [], fields, all, h => by
    unfold Xml.Property.extract at h
    cases h
    simp
  | (first, property) :: rest, fields, all, h => by
    unfold Xml.Property.extract at h
    obtain ⟨value, -, h⟩ := ok_of_bind h
    rw [mem_names_extract h, Fields.mem_names_setLast, List.exists_mem_cons_iff, or_assoc, eq_comm (a := name)]

/-- A record that an input gives, whatever there is in its file. -/
def Offers (i : Input) (r : Record) : Prop := ∃ reader position, (i.load reader position).1 = .ok r

/-- An input whose records have all properties that are declared: a table or a document. -/
def Tabular (i : Input) : Prop := ∀ spans, i.content ≠ .elements spans

/-- **The records of a table or a document have exactly the properties which it has.** -/
theorem mem_names_of_tabular {r : Record} (ht : i.Tabular) (h : i.Offers r) :
    name ∈ r.fields.names ↔ i.hasProperty name = true := by
  obtain ⟨⟨pages?, head⟩, position, h⟩ := h
  unfold load at h
  dsimp only at h
  split at h
  · cases h
  unfold loadFrom at h
  unfold hasProperty
  cases hc : i.content with
  | elements spans => exact absurd hc (ht spans)
  | table ignoreFirstRow delimiter columns =>
    simp only [hc] at h
    split at h
    · cases h
    split at h
    · obtain ⟨fields, hfields, rfl⟩ := ok_of_map h
      rw [mem_names_readCells hfields]
      simp [Fields.names]
    · cases h
  | document path properties charset =>
    simp only [hc] at h
    split at h
    · cases h
    split at h
    · cases h
    · cases h
    · obtain ⟨fields, hfields, rfl⟩ := ok_of_map h
      rw [mem_names_extract (ok_of_around hfields)]
      simp [Fields.names]

/-- **The records of an input have no other properties than it has.** -/
theorem hasProperty_of_offers {r : Record} (h : i.Offers r) (hname : name ∈ r.fields.names) :
    i.hasProperty name = true := by
  by_cases ht : i.Tabular
  · exact (mem_names_of_tabular ht h).1 hname
  · obtain ⟨spans, hc⟩ : ∃ spans, i.content = .elements spans := by simpa [Tabular] using ht
    unfold hasProperty
    rw [hc]

end Input

end RecordServer
