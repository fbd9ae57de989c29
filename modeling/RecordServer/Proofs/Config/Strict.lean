import RecordServer.Proofs.Config.Reading
import RecordServer.Proofs.Config.Schema

/-!
# Nothing is ignored

Every document from which a configuration is read conforms to the table of supported keys
(`Config.conforms_of_ofDocument`), so that it is refused as soon as one key is added that is not supported. Each reader
checks the keys of its own map and gives the values to other readers; there is one lemma for each reader, and one about
`Setting.ensureKeys` (`Config.conforms_component`), which needs that a key stands for one entry only.
-/

namespace RecordServer.Config

open Yaml (Node)

/-! ## Settings -/

namespace Setting

variable {s : Setting} {key : String}

theorem isScalar_of_text {text : String} (h : s.text = .ok text) : s.node.isScalar = true := by
  unfold Setting.text at h
  cases hnode : s.node with
  | list items =>
    rw [hnode] at h
    cases h
  | map entries =>
    rw [hnode] at h
    cases h
  | _ => rfl

theorem isScalar_of_not_isPresent (h : ¬s.isPresent = true) : s.node.isScalar = true := by
  unfold isPresent at h
  split at h
  · rename_i hnode
    rw [hnode]
    rfl
  · rename_i hnode
    rw [hnode]
    rfl
  · exact absurd rfl h

theorem isScalar_of_optionalText {text : Option String} (h : s.optionalText key = .ok text) :
    (s.child key).node.isScalar = true := by
  unfold optionalText at h
  dsimp only at h
  split at h
  · obtain ⟨text, htext, -⟩ := ok_of_map h
    exact isScalar_of_text htext
  · rename_i habsent
    exact isScalar_of_not_isPresent habsent

theorem isScalar_of_textOr {default text : String} (h : s.textOr key default = .ok text) :
    (s.child key).node.isScalar = true := by
  obtain ⟨text, htext, -⟩ := ok_of_map h
  exact isScalar_of_optionalText htext

theorem isScalar_of_booleanOr {default truth : Bool} (h : s.booleanOr key default = .ok truth) :
    (s.child key).node.isScalar = true := by
  unfold booleanOr at h
  dsimp only at h
  cases hnode : (s.child key).node with
  | list items =>
    rw [hnode] at h
    cases h
  | map entries =>
    rw [hnode] at h
    cases h
  | _ => rfl

theorem isScalar_of_naturalOr {default n : Nat} (h : s.naturalOr key default = .ok n) :
    (s.child key).node.isScalar = true := by
  unfold naturalOr at h
  dsimp only at h
  cases hnode : (s.child key).node with
  | list items =>
    rw [hnode] at h
    cases h
  | map entries =>
    rw [hnode] at h
    cases h
  | _ => rfl

theorem isScalar_of_characterOr {default c : Char} (h : s.characterOr key default = .ok c) :
    (s.child key).node.isScalar = true := by
  unfold characterOr at h
  dsimp only at h
  split at h
  · obtain ⟨text, htext, -⟩ := ok_of_bind h
    exact isScalar_of_text htext
  · rename_i habsent
    exact isScalar_of_not_isPresent habsent

/-! ### Lists and maps -/

theorem exists_itemsFrom {path : String} : ∀ {n : Nat} {nodes : List Node} {node : Node}, node ∈ nodes →
    ∃ setting ∈ itemsFrom path n nodes, setting.node = node
  | n, node :: rest, other, h => by
    rcases List.mem_cons.1 h with rfl | h
    · exact ⟨_, List.mem_cons_self, rfl⟩
    · obtain ⟨setting, hsetting, hnode⟩ := exists_itemsFrom h
      exact ⟨setting, List.mem_cons_of_mem _ hsetting, hnode⟩

/-- The items of a list conform if each of them has been read, and they have different keys if the list has. -/
theorem conforms_items {each : Place} {items : List Setting} (hs : s.node.Distinct) (h : s.items = .ok items)
    (heach : ∀ item ∈ items, item.node.Distinct → Conforms each item.node) : Conforms (.items each) s.node := by
  unfold Setting.items at h
  split at h
  · rename_i nodes hnode
    cases h
    rw [hnode] at hs ⊢
    cases hs with
    | scalar hscalar => cases hscalar
    | list hnodes =>
      refine .items fun node hmem => ?_
      obtain ⟨setting, hsetting, rfl⟩ := exists_itemsFrom hmem
      exact heach setting hsetting (hnodes setting.node hmem)
  · rename_i hnode
    exact .scalar (hnode ▸ rfl)
  · rename_i hnode
    exact .scalar (hnode ▸ rfl)
  · cases h

/-- A key with a text is this text, or an integer. -/
theorem of_keyText? {node : Node} {name : String} (h : keyText? node = some name) :
    node = .string name ∨ ∃ n : Int, node = .integer n ∧ toString n = name := by
  cases node with
  | string key => exact .inl (congrArg _ (Option.some.inj h))
  | integer n => exact .inr ⟨n, rfl, Option.some.inj h⟩
  | _ => cases h

/-- The entries of a map are read one by one, and there are none without a map. -/
theorem of_entries {entries : List (String × Setting)} (h : s.entries = .ok entries) :
    (∃ nodes, s.node = .map nodes ∧ List.Forall₂ (fun (entry : Node × Node) (read : String × Setting) =>
      keyText? entry.1 = some read.1 ∧ read.2.node = entry.2) nodes entries) ∨
    s.node.isScalar = true ∧ entries = [] := by
  unfold Setting.entries at h
  split at h
  · rename_i nodes hnode
    refine .inl ⟨nodes, hnode, (ok_of_mapM h).imp fun entry read h => ?_⟩
    cases hkey : keyText? entry.1 with
    | none =>
      rw [hkey] at h
      cases h
    | some key =>
      rw [hkey] at h
      cases h
      exact ⟨rfl, rfl⟩
  · rename_i hnode
    cases h
    exact .inr ⟨hnode ▸ rfl, rfl⟩
  · rename_i hnode
    cases h
    exact .inr ⟨hnode ▸ rfl, rfl⟩
  · cases h

/-- Each entry of a map is read under its key. -/
theorem mem_of_entries {nodes : List (Node × Node)} {entries : List (String × Setting)} {entry : Node × Node}
    (hnode : s.node = .map nodes) (h : s.entries = .ok entries) (hentry : entry ∈ nodes) :
    ∃ read ∈ entries, keyText? entry.1 = some read.1 ∧ read.2.node = entry.2 := by
  rcases of_entries h with ⟨nodes', hnode', hread⟩ | ⟨hscalar, -⟩
  · obtain rfl : nodes = nodes' := Node.map.inj (hnode.symm.trans hnode')
    exact mem_of_forall₂ hread.flip entry hentry
  · rw [hnode] at hscalar
    cases hscalar

/-- The components of a map conform if each of them has been read, and they have different keys if the map has. -/
theorem conforms_names {each : Place} {entries : List (String × Setting)} (hs : s.node.Distinct)
    (hentries : s.entries = .ok entries)
    (heach : ∀ entry ∈ entries, entry.2.node.Distinct → Conforms each entry.2.node) :
    Conforms (.names each) s.node := by
  rcases of_entries hentries with ⟨nodes, hnode, -⟩ | ⟨hscalar, -⟩
  · rw [hnode] at hs ⊢
    cases hs with
    | scalar hscalar => cases hscalar
    | map _ hvalues =>
      refine .names (fun entry hentry => ?_) fun entry hentry => ?_
      · obtain ⟨read, -, hname, -⟩ := mem_of_entries hnode hentries hentry
        rcases of_keyText? hname with hkey | ⟨n, hkey, -⟩ <;> exact hkey ▸ rfl
      · obtain ⟨read, hmem, -, hsame⟩ := mem_of_entries hnode hentries hentry
        have hread := heach read hmem
        rw [hsame] at hread
        exact hread (hvalues entry hentry)
  · exact .scalar hscalar

/-! ### Components -/

/-- The value of a key is found if no other entry has this key. -/
theorem lookup_of_mem {value : Node} : ∀ {entries : List (Node × Node)}, (entries.map Prod.fst).Nodup →
    (.string key, value) ∈ entries → lookup key entries = value
  | (k, v) :: rest, hdistinct, hmem => by
    obtain ⟨hfirst, hrest⟩ := List.nodup_cons.1 hdistinct
    rcases List.mem_cons.1 hmem with h | h
    · cases h
      exact if_pos rfl
    · have hfound := lookup_of_mem hrest h
      cases k with
      | string k =>
        have hne : k ≠ key := fun hsame => hfirst (List.mem_map.2 ⟨_, h, congrArg Node.string hsame.symm⟩)
        exact (if_neg hne).trans hfound
      | _ => exact hfound

/-- What is found under a key is the value of an entry with this key. -/
theorem mem_of_lookup : ∀ {entries : List (Node × Node)}, lookup key entries ≠ .absent →
    (.string key, lookup key entries) ∈ entries
  | [], h => absurd rfl h
  | (k, v) :: rest, h => by
    cases k with
    | string k =>
      by_cases hk : k = key
      · subst hk
        rw [show lookup k ((.string k, v) :: rest) = v from if_pos rfl]
        exact List.mem_cons_self
      · rw [show lookup key ((.string k, v) :: rest) = lookup key rest from if_neg hk] at h ⊢
        exact List.mem_cons_of_mem _ (mem_of_lookup h)
    | _ => exact List.mem_cons_of_mem _ (mem_of_lookup h)

theorem distinct_child (hs : s.node.Distinct) : (s.child key).node.Distinct := by
  unfold child
  split
  · rename_i entries hnode
    rw [hnode] at hs
    cases hs with
    | scalar hscalar => cases hscalar
    | map _ hvalues =>
      by_cases h : lookup key entries = .absent
      · exact .scalar (h ▸ rfl)
      · exact hvalues _ (mem_of_lookup h)
  · exact .scalar rfl

/-- What an integer is written with. -/
theorem digit_of_mem_toString {n : Int} {c : Char} (h : c ∈ (toString n).toList) : c.isDigit = true ∨ c = '-' := by
  cases n with
  | ofNat n =>
    have h : c ∈ (Nat.repr n).toList := h
    rw [Nat.toList_repr] at h
    exact .inl (Nat.isDigit_of_mem_toDigits (by decide) (by decide) h)
  | negSucc n =>
    have h : c ∈ ("-" ++ Nat.repr n.succ).toList := h
    rw [String.toList_append, Nat.toList_repr] at h
    rcases List.mem_append.1 h with h | h
    · exact .inr (by simpa using h)
    · exact .inl (Nat.isDigit_of_mem_toDigits (by decide) (by decide) h)

end Setting

/-- In each key that is supported there is a character which no integer is written with. -/
theorem Component.all_keys (c : Component) (type : String) :
    (c.keys type).all (fun child => child.1.toList.any fun ch => !ch.isDigit && ch != '-') = true := by
  unfold keys
  split <;> decide

theorem Component.ne_toString {c : Component} {type : String} {child : String × Place} (h : child ∈ c.keys type)
    (n : Int) : toString n ≠ child.1 := by
  intro hsame
  obtain ⟨ch, hmem, hch⟩ := List.any_eq_true.1 (List.all_eq_true.1 (c.all_keys type) child h)
  have := Setting.digit_of_mem_toString (hsame ▸ hmem)
  simp_all

/-- **A component conforms if its keys have been checked and all values that are supported conform.** -/
theorem conforms_component {c : Component} {s : Setting} {type : String} {supported : List String}
    (hs : s.node.Distinct) (htype : c.typeFor (s.child "type").node = type) (hkeys : s.ensureKeys supported = .ok ())
    (htable : (c.keys type).map Prod.fst = supported)
    (hvalues : (c.keys type).Forall fun child => Conforms child.2 (s.child child.1).node) :
    Conforms (.component c) s.node := by
  obtain ⟨entries, hentries, hsupported⟩ := ok_of_bind hkeys
  cases hnode : s.node with
  | map nodes =>
    have hchild : ∀ key, (s.child key).node = Setting.lookup key nodes := fun key => by rw [Setting.child, hnode]
    have hkeysFor : c.keysFor nodes = c.keys type := by rw [Component.keysFor, ← hchild, htype]
    rw [hnode] at hs
    cases hs with
    | scalar hscalar => cases hscalar
    | map hdistinct _ =>
      refine .component (fun entry hentry => ?_) fun key place value hmem hplace => ?_
      · obtain ⟨read, hread, hname, -⟩ := Setting.mem_of_entries hnode hentries hentry
        have hmem : read.1 ∈ (c.keys type).map Prod.fst := by
          have := ok_of_forM hsupported _ hread
          split at this
          · rename_i hcontains
            exact htable ▸ List.contains_iff_mem.1 hcontains
          · cases this
        rcases Setting.of_keyText? hname with hkey | ⟨n, -, hn⟩
        · exact ⟨read.1, hkeysFor ▸ hmem, hkey⟩
        · -- an integer is read as a text, but never as that of a supported key
          obtain ⟨child, hchild, hsame⟩ := List.mem_map.1 hmem
          exact absurd (hn.trans hsame.symm) (Component.ne_toString hchild n)
      · have hvalue := List.forall_iff_forall_mem.1 hvalues (key, place) (hkeysFor ▸ hplace)
        rwa [hchild, Setting.lookup_of_mem hdistinct hmem] at hvalue
  | list items =>
    unfold Setting.entries at hentries
    rw [hnode] at hentries
    cases hentries
  | _ => exact .scalar rfl

theorem Component.typeFor_of_text {c : Component} {s : Setting} {type : String} (h : s.text = .ok type) :
    c.typeFor s.node = type := by
  unfold Setting.text at h
  unfold typeFor Setting.text
  cases hnode : s.node <;> simp_all [Setting.problem]

variable {s : Setting}

theorem conforms_textList {key : String} {texts : Option (List String)} (hs : s.node.Distinct)
    (h : s.textList key = .ok texts) : Conforms (.items .scalar) (s.child key).node := by
  unfold Setting.textList at h
  dsimp only at h
  split at h
  · obtain ⟨items, hitems, h⟩ := ok_of_bind h
    obtain ⟨texts, htexts, -⟩ := ok_of_map h
    refine Setting.conforms_items (Setting.distinct_child hs) hitems fun item hitem _ => ?_
    obtain ⟨text, -, htext⟩ := (mem_of_mapM htexts).2 item hitem
    exact .scalar (Setting.isScalar_of_text htext)
  · rename_i habsent
    exact .scalar (Setting.isScalar_of_not_isPresent habsent)

/-! ## Sources and parsers -/

open Component Setting

theorem conforms_source {source : Source} (hs : s.node.Distinct) (h : Source.read s = .ok source) :
    Conforms (.component .source) s.node := by
  obtain ⟨type, htype, h⟩ := ok_of_bind h
  split at h
  · obtain ⟨⟨⟩, hkeys, h⟩ := ok_of_bind h
    obtain ⟨path, hpath, h⟩ := ok_of_bind h
    exact conforms_component hs (typeFor_of_text htype) hkeys rfl
      ⟨.scalar (isScalar_of_text htype), .scalar (isScalar_of_text hpath)⟩
  · cases h

theorem conforms_booleans {values : List String × List String} (hs : s.node.Distinct)
    (h : readBooleans s = .ok values) :
    Conforms (.items .scalar) (s.child "trueValues").node ∧ Conforms (.items .scalar) (s.child "falseValues").node := by
  obtain ⟨trueValues, htrue, h⟩ := ok_of_bind h
  obtain ⟨falseValues, hfalse, h⟩ := ok_of_bind h
  exact ⟨conforms_textList hs htrue, conforms_textList hs hfalse⟩

theorem isScalar_of_readCharset {charset : Option Text.Charset} (h : readCharset s = .ok charset) :
    (s.child "convertFromCharset").node.isScalar = true := by
  obtain ⟨label, hlabel, h⟩ := ok_of_bind h
  exact isScalar_of_optionalText hlabel

theorem isScalar_of_readSeparator {separator : Separator} (h : readSeparator s = .ok separator) :
    (s.child "separator").node.isScalar = true ∧ (s.child "regexp").node.isScalar = true := by
  obtain ⟨text, htext, h⟩ := ok_of_bind h
  obtain ⟨source, hsource, h⟩ := ok_of_bind h
  exact ⟨isScalar_of_optionalText htext, isScalar_of_optionalText hsource⟩

theorem conforms_format {format : Format} (hs : s.node.Distinct) (h : readFormat s = .ok format) :
    Conforms (.component .parser) s.node := by
  obtain ⟨type, htype, h⟩ := ok_of_bind h
  have htypeFor := typeFor_of_text (c := .parser) htype
  have hscalar := isScalar_of_text htype
  split at h
  · obtain ⟨⟨⟩, hkeys, h⟩ := ok_of_bind h
    obtain ⟨charset, hcharset, h⟩ := ok_of_bind h
    exact conforms_component hs htypeFor hkeys rfl ⟨.scalar hscalar, .scalar (isScalar_of_readCharset hcharset)⟩
  · obtain ⟨⟨⟩, hkeys, h⟩ := ok_of_bind h
    obtain ⟨ignored, hignored, h⟩ := ok_of_bind h
    exact conforms_component hs htypeFor hkeys rfl ⟨.scalar hscalar, .scalar (isScalar_of_textOr hignored)⟩
  · obtain ⟨⟨⟩, hkeys, h⟩ := ok_of_bind h
    obtain ⟨ignored, hignored, h⟩ := ok_of_bind h
    obtain ⟨separator, hseparator, h⟩ := ok_of_bind h
    exact conforms_component hs htypeFor hkeys rfl
      ⟨.scalar hscalar, .scalar (isScalar_of_textOr hignored), .scalar (isScalar_of_characterOr hseparator)⟩
  · obtain ⟨⟨⟩, hkeys, h⟩ := ok_of_bind h
    obtain ⟨values, hvalues, h⟩ := ok_of_bind h
    exact conforms_component hs htypeFor hkeys rfl ⟨.scalar hscalar, conforms_booleans hs hvalues⟩
  · obtain ⟨⟨⟩, hkeys, h⟩ := ok_of_bind h
    exact conforms_component hs htypeFor hkeys rfl (.scalar hscalar)
  · obtain ⟨⟨⟩, hkeys, h⟩ := ok_of_bind h
    obtain ⟨separator, hseparator, h⟩ := ok_of_bind h
    obtain ⟨inner, hinner, h⟩ := ok_of_bind h
    obtain ⟨htext, hregexp⟩ := isScalar_of_readSeparator hseparator
    exact conforms_component hs htypeFor hkeys rfl
      ⟨.scalar hscalar, .scalar htext, .scalar hregexp, .scalar (isScalar_of_textOr hinner)⟩
  · cases h

/-! ## Inputs -/

theorem conforms_column {column : Column} (hs : s.node.Distinct) (h : Column.read s = .ok column) :
    Conforms (.component .column) s.node := by
  unfold Column.read at h
  split at h
  · rename_i hnode
    exact .scalar (hnode ▸ rfl)
  obtain ⟨⟨⟩, hkeys, h⟩ := ok_of_bind h
  obtain ⟨name, hname, h⟩ := ok_of_bind h
  have hcolumn : ∀ hparser hseparator, Conforms (.items .scalar) (s.child "trueValues").node →
      Conforms (.items .scalar) (s.child "falseValues").node → Conforms (.component .column) s.node :=
    fun hparser hseparator htrue hfalse => conforms_component hs rfl hkeys rfl
      ⟨.scalar (isScalar_of_text hname), .scalar hparser, htrue, hfalse, .scalar hseparator⟩
  dsimp only at h
  split at h
  · cases h
  rename_i hambiguous
  split at h
  · cases h
  rename_i hboth
  simp only [Bool.and_eq_true, Bool.or_eq_true] at hambiguous hboth
  split at h
  · rename_i hbooleans
    rw [Bool.or_eq_true] at hbooleans
    obtain ⟨values, hvalues, h⟩ := ok_of_bind h
    obtain ⟨htrue, hfalse⟩ := conforms_booleans hs hvalues
    exact hcolumn (isScalar_of_not_isPresent fun hparser => hambiguous ⟨.inl hbooleans, hparser⟩)
      (isScalar_of_not_isPresent fun hseparator => hboth ⟨hbooleans, hseparator⟩) htrue hfalse
  rename_i hno
  rw [Bool.or_eq_true, not_or] at hno
  have htrue := @Conforms.scalar (.items .scalar) _ (isScalar_of_not_isPresent hno.1)
  have hfalse := @Conforms.scalar (.items .scalar) _ (isScalar_of_not_isPresent hno.2)
  split at h
  · rename_i hpresent
    obtain ⟨separator, hseparator, h⟩ := ok_of_bind h
    exact hcolumn (isScalar_of_not_isPresent fun hparser => hambiguous ⟨.inr hpresent, hparser⟩)
      (isScalar_of_characterOr hseparator) htrue hfalse
  · rename_i habsent
    obtain ⟨parser, hparser, h⟩ := ok_of_bind h
    exact hcolumn (isScalar_of_textOr hparser) (isScalar_of_not_isPresent habsent) htrue hfalse

theorem read_of_readColumns {table : Setting} : ∀ {settings : List Setting} {read columns : List Column},
    readColumns table read settings = .ok columns → ∀ s ∈ settings, ∃ column, Column.read s = .ok column
  | [], _, _, _ => nofun
  | s :: rest, read, columns, h => by
    obtain ⟨column, hcolumn, h⟩ := ok_of_bind h
    split at h
    · cases h
    · exact List.forall_mem_cons.2 ⟨⟨column, hcolumn⟩, read_of_readColumns h⟩

theorem conforms_table {table : Table} (hs : s.node.Distinct) (h : Table.read s = .ok table) :
    (s.child "ignoreFirstRow").node.isScalar = true ∧ (s.child "delimiter").node.isScalar = true ∧
      Conforms (.items (.component .column)) (s.child "columns").node := by
  obtain ⟨delimiter, hdelimiter, h⟩ := ok_of_bind h
  split at h
  · cases h
  obtain ⟨items, hitems, h⟩ := ok_of_bind h
  obtain ⟨columns, hcolumns, h⟩ := ok_of_bind h
  split at h
  · cases h
  obtain ⟨ignoreFirst, hignore, h⟩ := ok_of_bind h
  refine ⟨isScalar_of_booleanOr hignore, isScalar_of_characterOr hdelimiter,
    conforms_items (distinct_child hs) hitems fun item hitem hdistinct => ?_⟩
  obtain ⟨column, hcolumn⟩ := read_of_readColumns hcolumns item hitem
  exact conforms_column hdistinct hcolumn

theorem typeFor_property {type : String} (h : s.textOr "type" "primitive" = .ok type) :
    Component.typeFor .property (s.child "type").node = type := by
  obtain ⟨text, htext, rfl⟩ := ok_of_map h
  unfold Setting.optionalText at htext
  dsimp only at htext
  split at htext
  · obtain ⟨text, hread, rfl⟩ := ok_of_map htext
    exact typeFor_of_text hread
  · rename_i habsent
    cases htext
    unfold Setting.isPresent at habsent
    split at habsent
    · rename_i hnode
      rw [hnode]
      rfl
    · rename_i hnode
      rw [hnode]
      rfl
    · exact absurd rfl habsent

theorem isScalar_of_path {path : String}
    (h : s.requiredText "xpath" = .ok path ∨ ∃ default, s.textOr "xpath" default = .ok path) :
    (s.child "xpath").node.isScalar = true := by
  rcases h with h | ⟨default, h⟩
  · exact isScalar_of_text h
  · exact isScalar_of_textOr h

theorem conforms_property : ∀ {depth : Nat} {defaultPath : Option String} {s : Setting} {selection : Selection},
    s.node.Distinct → Selection.read depth defaultPath s = .ok selection → Conforms (.component .property) s.node
  | 0, _, _, _, _, h => by cases h
  | depth + 1, defaultPath, s, selection, hs, h => by
    cases of_readSelection h with
    | primitive type pathRead keys parserRead =>
      exact conforms_component hs (typeFor_property type) keys rfl ⟨.scalar (isScalar_of_textOr type),
        .scalar (isScalar_of_path pathRead), .scalar (isScalar_of_textOr parserRead)⟩
    | strings type pathRead keys none =>
      exact conforms_component hs (typeFor_property type) keys rfl ⟨.scalar (isScalar_of_textOr type),
        .scalar (isScalar_of_path pathRead), .scalar (isScalar_of_not_isPresent none)⟩
    | array type pathRead keys _ itemsRead =>
      exact conforms_component hs (typeFor_property type) keys rfl ⟨.scalar (isScalar_of_textOr type),
        .scalar (isScalar_of_path pathRead), conforms_property (distinct_child hs) itemsRead⟩
    | object type pathRead keys entriesRead propertiesRead =>
      refine conforms_component hs (typeFor_property type) keys rfl ⟨.scalar (isScalar_of_textOr type),
        .scalar (isScalar_of_path pathRead),
        conforms_names (distinct_child hs) entriesRead fun entry hentry hdistinct => ?_⟩
      obtain ⟨property, -, -, hproperty⟩ := mem_of_forall₂ propertiesRead.flip entry hentry
      exact conforms_property hdistinct hproperty

theorem conforms_properties {properties : List (String × Selection)} (hs : s.node.Distinct)
    (h : readProperties s = .ok properties) : Conforms (.names (.component .property)) s.node := by
  obtain ⟨entries, hentries, h⟩ := ok_of_bind h
  refine conforms_names hs hentries fun entry hentry hdistinct => ?_
  obtain ⟨property, -, hproperty⟩ := (mem_of_mapM h).2 entry hentry
  obtain ⟨selection, hselection, -⟩ := ok_of_bind hproperty
  exact conforms_property hdistinct hselection

theorem conforms_input {input : Input} (hs : s.node.Distinct) (h : Input.read s = .ok input) :
    Conforms (.component .input) s.node := by
  obtain ⟨layout, hlayout, h⟩ := ok_of_bind h
  obtain ⟨source, hsource, h⟩ := ok_of_bind h
  obtain ⟨file, hfile, h⟩ := ok_of_bind h
  obtain ⟨fatalChange, hfatal, h⟩ := ok_of_bind h
  have hsource := isScalar_of_text hsource
  have hfile := isScalar_of_text hfile
  have hfatal := isScalar_of_booleanOr hfatal
  obtain ⟨type, htype, h⟩ := ok_of_bind hlayout
  have htypeFor := typeFor_of_text (c := .input) htype
  have hscalar := isScalar_of_text htype
  split at h
  · obtain ⟨⟨⟩, hkeys, h⟩ := ok_of_bind h
    obtain ⟨table, htable, h⟩ := ok_of_bind h
    obtain ⟨hignore, hdelimiter, hcolumns⟩ := conforms_table hs htable
    exact conforms_component hs htypeFor hkeys rfl
      ⟨.scalar hscalar, .scalar hsource, .scalar hfile, .scalar hfatal, .scalar hignore, .scalar hdelimiter, hcolumns⟩
  · obtain ⟨⟨⟩, hkeys, h⟩ := ok_of_bind h
    exact conforms_component hs htypeFor hkeys rfl
      ⟨.scalar hscalar, .scalar hsource, .scalar hfile, .scalar hfatal⟩
  · obtain ⟨⟨⟩, hkeys, h⟩ := ok_of_bind h
    obtain ⟨path, hpath, h⟩ := ok_of_bind h
    obtain ⟨properties, hproperties, h⟩ := ok_of_bind h
    exact conforms_component hs htypeFor hkeys rfl
      ⟨.scalar hscalar, .scalar hsource, .scalar hfile, .scalar hfatal, .scalar (isScalar_of_text hpath),
        conforms_properties (distinct_child hs) hproperties⟩
  · cases h

/-! ## Indexes -/

theorem conforms_indexed {properties : List String} (hs : s.node.Distinct) (h : readIndexed s = .ok properties) :
    Conforms (.items .scalar) (s.child "properties").node := by
  obtain ⟨texts, htexts, h⟩ := ok_of_bind h
  exact conforms_textList hs htexts

theorem conforms_index {isDirectory : String → Bool} {index : Index} (hs : s.node.Distinct)
    (h : Index.read isDirectory s = .ok index) : Conforms (.component .index) s.node := by
  obtain ⟨type, htype, h⟩ := ok_of_bind h
  have htypeFor := typeFor_of_text (c := .index) htype
  have hscalar := isScalar_of_text htype
  split at h
  · obtain ⟨⟨⟩, hkeys, h⟩ := ok_of_bind h
    exact conforms_component hs htypeFor hkeys rfl (.scalar hscalar)
  · obtain ⟨⟨⟩, hkeys, h⟩ := ok_of_bind h
    obtain ⟨input, hinput, h⟩ := ok_of_bind h
    obtain ⟨properties, hproperties, h⟩ := ok_of_bind h
    exact conforms_component hs htypeFor hkeys rfl
      ⟨.scalar hscalar, .scalar (isScalar_of_text hinput), conforms_indexed hs hproperties⟩
  · obtain ⟨⟨⟩, hkeys, h⟩ := ok_of_bind h
    obtain ⟨input, hinput, h⟩ := ok_of_bind h
    obtain ⟨properties, hproperties, h⟩ := ok_of_bind h
    obtain ⟨ignoreCase, hignore, h⟩ := ok_of_bind h
    exact conforms_component hs htypeFor hkeys rfl
      ⟨.scalar hscalar, .scalar (isScalar_of_text hinput), conforms_indexed hs hproperties,
        .scalar (isScalar_of_booleanOr hignore)⟩
  · obtain ⟨⟨⟩, hkeys, h⟩ := ok_of_bind h
    obtain ⟨path, hpath, h⟩ := ok_of_bind h
    split at h
    · cases h
    obtain ⟨input, hinput, h⟩ := ok_of_bind h
    obtain ⟨properties, hproperties, h⟩ := ok_of_bind h
    obtain ⟨ignoreCase, hignore, h⟩ := ok_of_bind h
    exact conforms_component hs htypeFor hkeys rfl
      ⟨.scalar hscalar, .scalar (isScalar_of_text hinput), conforms_indexed hs hproperties,
        .scalar (isScalar_of_booleanOr hignore), .scalar (isScalar_of_text hpath)⟩
  · cases h

/-! ## Relationships -/

theorem conforms_sortKey {key : SortKey} (hs : s.node.Distinct) (h : SortKey.read s = .ok key) :
    Conforms (.component .sortKey) s.node := by
  obtain ⟨⟨⟩, hkeys, h⟩ := ok_of_bind h
  obtain ⟨property, hproperty, h⟩ := ok_of_bind h
  obtain ⟨ascending, hascending, h⟩ := ok_of_bind h
  exact conforms_component hs rfl hkeys rfl
    ⟨.scalar (isScalar_of_text hproperty), .scalar (isScalar_of_booleanOr hascending)⟩

theorem conforms_readMatches : ∀ {settings : List Setting} {read conditions : List Match},
    readMatches read settings = .ok conditions → ∀ s ∈ settings, s.node.Distinct →
    Conforms (.component .condition) s.node
  | [], _, _, _ => nofun
  | s :: rest, read, conditions, h => by
    obtain ⟨⟨⟩, hkeys, h⟩ := ok_of_bind h
    obtain ⟨parentProperty, hparent, h⟩ := ok_of_bind h
    obtain ⟨childProperty, hchild, h⟩ := ok_of_bind h
    obtain ⟨childIndex, hindex, h⟩ := ok_of_bind h
    have hfirst (hs : s.node.Distinct) : Conforms (.component .condition) s.node :=
      conforms_component hs rfl hkeys rfl ⟨.scalar (isScalar_of_text hparent), .scalar (isScalar_of_text hchild),
        .scalar (isScalar_of_textOr hindex)⟩
    dsimp only at h
    split at h
    · cases h
    · exact List.forall_mem_cons.2 ⟨hfirst, conforms_readMatches h⟩

theorem conforms_relationships : ∀ {depth : Nat} {s : Setting} {relationships : List Relationship},
    s.node.Distinct → readRelationships depth s = .ok relationships →
    Conforms (.names (.component .relationship)) s.node
  | 0, s, relationships, hs, h => conforms_names hs (of_readRelationships_zero h).1 (List.forall_mem_nil _)
  | depth + 1, s, relationships, hs, h => by
    obtain ⟨entries, hentries, hread⟩ := of_readRelationships h
    refine conforms_names hs hentries fun entry hentry hs => ?_
    obtain ⟨relationship, -, hread⟩ := mem_of_forall₂ hread.flip entry hentry
    obtain ⟨hkeys, harray, hlimit, hsortItems, hsort, hmatchItems, hconditions, hinput, hbelow, -⟩ := hread
    have hsort : Conforms (.items (.component .sortKey)) (entry.2.child "sort").node := by
      refine conforms_items (distinct_child hs) hsortItems fun item hitem hitemDistinct => ?_
      obtain ⟨key, -, hkey⟩ := (mem_of_mapM hsort).2 item hitem
      exact conforms_sortKey hitemDistinct hkey
    have hmatch : Conforms (.items (.component .condition)) (entry.2.child "match").node :=
      conforms_items (distinct_child hs) hmatchItems (conforms_readMatches hconditions)
    exact conforms_component hs rfl hkeys rfl
      ⟨.scalar (isScalar_of_text hinput), .scalar (isScalar_of_booleanOr harray),
        .scalar (isScalar_of_naturalOr hlimit), hsort, hmatch, conforms_relationships (distinct_child hs) hbelow⟩

/-! ## Outputs -/

/-- What a parameter filters is told by scalars. -/
theorem isScalar_of_readParameter {name : String} {parameter : Parameter} (h : Parameter.read s name = .ok parameter) :
    (s.child "property").node.isScalar = true ∧ (s.child "index").node.isScalar = true ∧
      (s.child "parser").node.isScalar = true := by
  obtain ⟨property, hproperty, h⟩ := ok_of_bind h
  obtain ⟨index, hindex, h⟩ := ok_of_bind h
  obtain ⟨parser, hparser, h⟩ := ok_of_bind h
  exact ⟨isScalar_of_textOr hproperty, isScalar_of_textOr hindex, isScalar_of_textOr hparser⟩

theorem conforms_wildcardParameter {parameter : Parameter} (hs : s.node.Distinct)
    (h : readNamedParameter s = .ok parameter) : Conforms (.component .wildcardParameter) s.node := by
  obtain ⟨⟨⟩, hkeys, h⟩ := ok_of_bind h
  obtain ⟨name, hname, h⟩ := ok_of_bind h
  obtain ⟨name, h⟩ : ∃ name, Parameter.read s name = .ok parameter := by
    split at h
    · exact ⟨_, h⟩
    · obtain ⟨property, -, h⟩ := ok_of_bind h
      exact ⟨_, h⟩
  obtain ⟨hproperty, hindex, hparser⟩ := isScalar_of_readParameter h
  exact conforms_component hs rfl hkeys rfl
    ⟨.scalar (isScalar_of_optionalText hname), .scalar hproperty, .scalar hindex, .scalar hparser⟩

theorem read_of_readParameters {output : Setting} : ∀ {settings : List Setting} {read parameters : List Parameter},
    readParameters output read settings = .ok parameters → ∀ s ∈ settings, ∃ p, readNamedParameter s = .ok p
  | [], _, _, _ => nofun
  | s :: rest, read, parameters, h => by
    obtain ⟨parameter, hparameter, h⟩ := ok_of_bind h
    split at h
    · cases h
    · exact List.forall_mem_cons.2 ⟨⟨parameter, hparameter⟩, read_of_readParameters h⟩

theorem conforms_limit {limit : Limit} (hs : s.node.Distinct) (h : Limit.read s = .ok limit) :
    Conforms (.component .limit) s.node := by
  obtain ⟨⟨⟩, hkeys, h⟩ := ok_of_bind h
  obtain ⟨default, hdefault, h⟩ := ok_of_bind h
  obtain ⟨max, hmax, h⟩ := ok_of_bind h
  obtain ⟨parameter, hparameter, h⟩ := ok_of_bind h
  exact conforms_component hs rfl hkeys rfl
    ⟨.scalar (isScalar_of_naturalOr hdefault), .scalar (isScalar_of_naturalOr hmax),
      .scalar (isScalar_of_textOr hparameter)⟩

theorem conforms_offset {limit : Limit} {offset : String} (hs : s.node.Distinct)
    (h : readOffset s limit = .ok offset) : Conforms (.component .offset) s.node := by
  obtain ⟨⟨⟩, hkeys, h⟩ := ok_of_bind h
  obtain ⟨parameter, hparameter, h⟩ := ok_of_bind h
  exact conforms_component hs rfl hkeys rfl (.scalar (isScalar_of_textOr hparameter))

theorem isScalar_of_readEndpoint {endpoint : String} (h : readEndpoint s = .ok endpoint) :
    (s.child "endpoint").node.isScalar = true := by
  obtain ⟨text, htext, h⟩ := ok_of_bind h
  exact isScalar_of_text htext

theorem conforms_output {output : Output} (hs : s.node.Distinct) (h : Output.read s = .ok output) :
    Conforms (.component .output) s.node := by
  cases of_readOutput h with
  | list type keys limitRead offsetRead entriesRead parametersRead endpointRead inputRead relationshipsRead =>
    have hparameters : Conforms (.names (.component .listParameter)) (s.child "parameters").node := by
      refine conforms_names (distinct_child hs) entriesRead fun entry hentry hs => ?_
      obtain ⟨parameter, -, hread⟩ := mem_of_forall₂ parametersRead.flip entry hentry
      obtain ⟨hproperty, hindex, hparser⟩ := isScalar_of_readParameter hread.read
      exact conforms_component hs rfl hread.keys rfl ⟨.scalar hproperty, .scalar hindex, .scalar hparser⟩
    exact conforms_component hs (typeFor_of_text type) keys rfl
      ⟨.scalar (isScalar_of_text type), .scalar (isScalar_of_readEndpoint endpointRead),
        .scalar (isScalar_of_text inputRead), conforms_limit (distinct_child hs) limitRead,
        conforms_offset (distinct_child hs) offsetRead, hparameters,
        conforms_relationships (distinct_child hs) relationshipsRead⟩
  | single type keys endpointRead itemsRead parametersRead inputRead relationshipsRead =>
    have hparameters : Conforms (.items (.component .wildcardParameter)) (s.child "parameters").node := by
      refine conforms_items (distinct_child hs) itemsRead fun item hitem hdistinct => ?_
      obtain ⟨parameter, hparameter⟩ := read_of_readParameters parametersRead item hitem
      exact conforms_wildcardParameter hdistinct hparameter
    exact conforms_component hs (typeFor_of_text type) keys rfl
      ⟨.scalar (isScalar_of_text type), .scalar (isScalar_of_readEndpoint endpointRead),
        .scalar (isScalar_of_text inputRead), hparameters,
        conforms_relationships (distinct_child hs) relationshipsRead⟩

/-! ## Services -/

theorem isScalar_of_readEncryption {encryption : Option Encryption} (h : Encryption.read s = .ok encryption) :
    (s.child "certificate").node.isScalar = true ∧ (s.child "privateKey").node.isScalar = true := by
  obtain ⟨certificate, hcertificate, h⟩ := ok_of_bind h
  obtain ⟨privateKey, hprivateKey, h⟩ := ok_of_bind h
  exact ⟨isScalar_of_optionalText hcertificate, isScalar_of_optionalText hprivateKey⟩

theorem conforms_service {service : Service} (hs : s.node.Distinct) (h : Service.read s = .ok service) :
    Conforms (.component .service) s.node := by
  obtain ⟨type, htype, h⟩ := ok_of_bind h
  split at h
  · obtain ⟨⟨⟩, hkeys, h⟩ := ok_of_bind h
    obtain ⟨encryption, hencryption, h⟩ := ok_of_bind h
    obtain ⟨listen, hlisten, h⟩ := ok_of_bind h
    obtain ⟨outputs, houtputs, h⟩ := ok_of_bind h
    obtain ⟨hcertificate, hprivateKey⟩ := isScalar_of_readEncryption hencryption
    exact conforms_component hs (typeFor_of_text htype) hkeys rfl
      ⟨.scalar (isScalar_of_text htype), .scalar (isScalar_of_textOr hlisten), .scalar hcertificate,
        .scalar hprivateKey, conforms_textList hs houtputs⟩
  · cases h

/-! ## Documents -/

theorem conforms_section {α : Type} {read : Setting → Except Fault α} {name : String} {c : Component}
    {components : List (String × α)} (hs : s.node.Distinct) (h : readSection read s name = .ok components)
    (heach : ∀ {s : Setting} {a : α}, s.node.Distinct → read s = .ok a → Conforms (.component c) s.node) :
    Conforms (.names (.component c)) (s.child name).node := by
  obtain ⟨entries, hentries, hread⟩ := of_readSection h
  refine conforms_names (distinct_child hs) hentries fun entry hentry hdistinct => ?_
  obtain ⟨component, -, -, hcomponent⟩ := mem_of_forall₂ hread.flip entry hentry
  exact heach hdistinct hcomponent

theorem conforms_root {isDirectory : String → Bool} {config : Config} (hs : s.node.Distinct)
    (h : ofRoot isDirectory s = .ok config) : Conforms (.component .root) s.node := by
  obtain ⟨hkeys, hsources, hparsers, hinputs, hindexes, houtputs, hservices, -, -⟩ := of_ofRoot h
  exact conforms_component hs rfl hkeys rfl
    ⟨conforms_section hs hsources conforms_source, conforms_section hs hparsers conforms_format,
      conforms_section hs hinputs conforms_input, conforms_section hs hindexes conforms_index,
      conforms_section hs houtputs conforms_output, conforms_section hs hservices conforms_service⟩

/-- A document from which a configuration is read conforms, if the keys of each map are different. -/
theorem conforms_of_ofDocument {isDirectory : String → Bool} {document : Node} {config : Config}
    (hdistinct : document.Distinct) (h : ofDocument isDirectory document = .ok config) :
    Conforms (.component .root) document := by
  unfold ofDocument at h
  split at h
  · exact conforms_root hdistinct h
  · exact .scalar rfl
  · cases h

/-- **Nothing is ignored**: the first document of a text from which a configuration is read has supported keys only, and
each text whose document has one more, anywhere within it, is refused. -/
theorem conforms_of_ofText {isDirectory : String → Bool} {text : String} {config : Config} {document : Node}
    {more : List Node} (h : ofText isDirectory text = .ok config) (hread : Yaml.read? text = some (document :: more)) :
    Conforms (.component .root) document ∧
      ∀ text' document' more', Yaml.read? text' = some (document' :: more') →
        Extended (.component .root) document document' → ∃ fault, ofText isDirectory text' = .error fault := by
  have hdistinct {text : String} {document : Node} {more : List Node}
      (hread : Yaml.read? text = some (document :: more)) : document.Distinct :=
    Yaml.distinct_of_read? hread document List.mem_cons_self
  unfold ofText at h
  rw [hread] at h
  refine ⟨conforms_of_ofDocument (hdistinct hread) h, fun text' document' more' hread' hextended => ?_⟩
  cases h' : ofText isDirectory text' with
  | error fault => exact ⟨fault, rfl⟩
  | ok config' =>
    unfold ofText at h'
    rw [hread'] at h'
    exact absurd (conforms_of_ofDocument (hdistinct hread') h') (not_conforms_of_extended hextended)

/-- A service, and whatever else is said about it. -/
def serviceText (more : String) : String := "services:\n s:\n  type: http" ++ more

/-- The document of a service with further entries. -/
def serviceDocument (more : List (Node × Node)) : Node :=
  .map [(.string "services", .map [(.string "s", .map ((.string "type", .string "http") :: more))])]

/-- A service has no port, so that one cannot be added. -/
theorem conforms_serviceDocument :
    (∃ config, ofText (fun _ => false) (serviceText "") = .ok config) ∧
      Yaml.read? (serviceText "") = some [serviceDocument []] ∧ Conforms (.component .root) (serviceDocument []) ∧
      Yaml.read? (serviceText "\n  port: 1") = some [serviceDocument [(.string "port", .integer 1)]] ∧
      ∃ fault, ofText (fun _ => false) (serviceText "\n  port: 1") = .error fault := by
  have hread : Yaml.read? (serviceText "") = some [serviceDocument []] := by decide +kernel
  have hread' : Yaml.read? (serviceText "\n  port: 1") = some [serviceDocument [(.string "port", .integer 1)]] := by
    decide +kernel
  have hextended :
      Extended (.component .root) (serviceDocument []) (serviceDocument [(.string "port", .integer 1)]) := by
    refine @Extended.value .root [] [] "services" (.names (.component .service)) _ _ ?_
      (@Extended.name _ [] [] _ _ _ (@Extended.here .service [(.string "type", .string "http")] [] _ _ ?_))
    · exact .tail _ (.tail _ (.tail _ (.tail _ (.tail _ (.head _)))))
    · simp [Component.keysFor, Component.typeFor, Component.keys, Setting.lookup, Setting.text]
  have hnames : (ofText (fun _ => false) (serviceText "")).toOption.map (fun c => c.services.map Prod.fst) =
      some ["s"] := by decide +kernel
  obtain ⟨config, hconfig, -⟩ := Option.map_eq_some_iff.1 hnames
  have h := ok_of_toOption hconfig
  obtain ⟨hconforms, hrefused⟩ := conforms_of_ofText h hread
  exact ⟨⟨config, h⟩, hread, hconforms, hread', hrefused _ _ [] hread' hextended⟩

end RecordServer.Config
