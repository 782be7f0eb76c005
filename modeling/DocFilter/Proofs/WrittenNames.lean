import DocFilter.Json
import DocFilter.Proofs.Tables
import DocFilter.Proofs.Utf8

/-!
Names as they are written. A written object has its members in the order of their written names, in
which a byte that belongs to no character is spelled `\ufffd`. When the text is read, this spelling
and the replacement character itself become one name, and of two members with one name the later
counts (`lastNamed?`).

Main result (`Row.lastNamed?_renamed`): a name that consists of characters always keeps its value,
whatever other names of the row are read as it. The reason is the order: the escape begins with a
backslash, which comes before every byte of the replacement character, so the other names are written
in front of it (`Json.quoted_lt_of_stray`).
-/

set_option autoImplicit false

namespace DocFilter

open Text (byte)

/-! ## Names that occur more than once -/

section LastNamed

variable {α β : Type}

/-- What stands under a name; of several entries the last one counts. -/
def lastNamed? (entries : List (Text × α)) (name : Text) : Option α := entries.reverse.lookup name

/-- What is found under a name is one of the entries with this name. -/
theorem mem_of_lastNamed? {entries : List (Text × α)} {name : Text} {a : α}
    (h : lastNamed? entries name = some a) : (name, a) ∈ entries := by
  obtain ⟨before, after, hsplit, -⟩ := List.lookup_eq_some_iff.1 h
  exact List.mem_reverse.1 (by rw [hsplit]; simp)

/-- Something is found under a name just if there is an entry with this name. -/
theorem lastNamed?_isSome {entries : List (Text × α)} {name : Text} :
    (lastNamed? entries name).isSome = true ↔ ∃ e ∈ entries, e.1 = name := by
  rw [lastNamed?, ← not_iff_not, Option.not_isSome_iff_eq_none, List.lookup_eq_none_iff]
  simp only [List.mem_reverse, bne_iff_ne, not_exists, not_and]
  exact forall₂_congr fun e _ => ne_comm

/-- An entry counts if none behind it has its name. -/
theorem lastNamed?_append_cons {before after : List (Text × α)} {name : Text} (a : α)
    (hafter : ∀ e ∈ after, e.1 ≠ name) : lastNamed? (before ++ (name, a) :: after) name = some a := by
  refine List.lookup_eq_some_iff.2 ⟨after.reverse, before.reverse, by simp, fun e he => ?_⟩
  exact bne_iff_ne.2 (hafter e (List.mem_reverse.1 he)).symm

/-- A change of what stands under the names is a change of what is found. -/
theorem lastNamed?_map (g : α → β) (entries : List (Text × α)) (name : Text) :
    lastNamed? (entries.map fun e => (e.1, g e.2)) name = (lastNamed? entries name).map g := by
  unfold lastNamed?
  rw [← List.map_reverse]
  induction entries.reverse with
  | nil => rfl
  | cons e rest ih =>
    rw [List.map_cons, List.lookup_cons, List.lookup_cons, ih]
    cases name == e.1 <;> rfl

end LastNamed

namespace Row

/-- Laying entries over a row one after the other: under a name there is the last of the entries with
this name, and what the row had if there is none. -/
theorem get?_merge_last (row changes : Row) (name : Text) :
    (row.merge changes).get? name = (lastNamed? changes name).or (row.get? name) := by
  induction changes generalizing row with
  | nil => rfl
  | cons e changes ih =>
    obtain ⟨k, v⟩ := e
    rw [merge_cons, ih, get?_set, lastNamed?, lastNamed?, List.reverse_cons, List.lookup_append,
      Option.or_assoc, List.lookup_cons]
    by_cases hname : name = k
    · rw [if_pos hname, hname, beq_self_eq_true]
      rfl
    · rw [if_neg hname, beq_false_of_ne hname]
      rfl

/-- The row of a list of entries has under each name the last entry with this name. -/
theorem get?_ofList (entries : Row) (name : Text) :
    (Row.ofList entries).get? name = lastNamed? entries name := by
  rw [Row.ofList, get?_merge_last]
  exact Option.or_none

/-- With distinct names the first entry of a name is also the last one. -/
theorem lastNamed?_of_nodup {row : Row} (h : row.names.Nodup) (name : Text) :
    lastNamed? row name = row.get? name :=
  (get?_perm h (List.reverse_perm row).symm name).symm

end Row

/-! ## The order of written names -/

namespace Json

/-- The written order is an order of the same entries. -/
theorem byWrittenName_perm {α : Type} (entries : List (Text × α)) : (byWrittenName entries).Perm entries :=
  sortByKey_perm _ entries

/-- The order depends on the names only, so entries can be changed under their names before or after. -/
theorem byWrittenName_map {α β : Type} (g : α → β) (entries : List (Text × α)) :
    byWrittenName (entries.map fun e => (e.1, g e.2)) = (byWrittenName entries).map fun e => (e.1, g e.2) :=
  sortByKey_map _ (fun _ => rfl) entries

theorem byWrittenName_pairwise {α : Type} (entries : List (Text × α)) :
    (byWrittenName entries).Pairwise fun e e' => quoted e.1 ≤ quoted e'.1 :=
  sortByKey_pairwise _ entries

/-- Pieces with a stray byte among them are written in front of the characters that they are read as.
The two spellings agree up to the first stray byte, and there a backslash stands against the first byte
of the replacement character. -/
theorem escaped_lt_of_stray {ps : List Text.Piece} {b : UInt8} (h : .stray b ∈ ps) (rest rest' : Text) :
    ps.flatMap escapedPiece ++ rest
      < (ps.map fun p => Text.Piece.char p.shown).flatMap escapedPiece ++ rest' := by
  induction ps with
  | nil => exact absurd h List.not_mem_nil
  | cons p ps ih =>
    rw [List.map_cons, List.flatMap_cons, List.flatMap_cons, List.append_assoc, List.append_assoc]
    cases p with
    -- here the two spellings part
    | stray b' =>
      have hescape : escapedPiece (.stray b') = byte '\\' :: "ufffd" := rfl
      have hshown : escapedChar Text.replacement = 0xEF :: [0xBF, 0xBD] := by decide
      show _ < escapedChar Text.replacement ++ _
      rw [hescape, hshown, List.cons_append, List.cons_append]
      exact List.cons_lt_cons_iff.2 (.inl (by decide))
    | char c =>
      have htail : .stray b ∈ ps := (List.mem_cons.1 h).resolve_left (by simp)
      exact List.append_left_lt (ih htail)

/-- A name that is no sequence of characters is written in front of the name that it is read as. -/
theorem quoted_lt_of_stray {t : Text} (h : Text.isUtf8 t = false) : quoted t < quoted (Text.repaired t) := by
  obtain ⟨b, hb⟩ : ∃ b, Text.Piece.stray b ∈ Text.pieces t := by
    obtain ⟨p, hp, hstray⟩ := List.all_eq_false.1 h
    cases p with
    | char c => exact absurd rfl hstray
    | stray b => exact ⟨b, hp⟩
  have hpieces : Text.pieces (Text.repaired t)
      = (Text.pieces t).map fun p => Text.Piece.char p.shown := by
    rw [Text.repaired_eq, Text.pieces_ofChars, List.map_map]
    rfl
  rw [quoted, quoted, hpieces]
  exact List.cons_lt_cons_iff.2 (.inr ⟨rfl, escaped_lt_of_stray hb _ _⟩)

end Json

/-! ## Names under which values are stored -/

namespace Row

/-- The values of a row under the names that they are read as, in the order in which they are
written. -/
def renamed (row : Row) : List (Text × Value) :=
  (Json.byWrittenName row).map fun e => (Text.repaired e.1, e.2)

/-- The values that are stored are those of the row. -/
theorem mem_renamed {row : Row} {name : Text} {v : Value} (h : (name, v) ∈ row.renamed) :
    ∃ k, (k, v) ∈ row ∧ Text.repaired k = name := by
  obtain ⟨e, he, heq⟩ := List.mem_map.1 h
  obtain ⟨hname, hv⟩ := Prod.mk.inj heq
  exact ⟨e.1, hv ▸ (Json.byWrittenName_perm row).mem_iff.1 he, hname⟩

/-- Something is stored under a name just if a name of the row is read as it. -/
theorem renamed_isSome {row : Row} {name : Text} :
    (lastNamed? row.renamed name).isSome = true ↔ name ∈ row.names.map Text.repaired := by
  have hperm := Json.byWrittenName_perm row
  rw [lastNamed?_isSome, List.mem_map]
  constructor
  · rintro ⟨e, he, rfl⟩
    obtain ⟨f, hf, rfl⟩ := List.mem_map.1 he
    exact ⟨f.1, List.mem_map_of_mem (hperm.mem_iff.1 hf), rfl⟩
  · rintro ⟨k, hk, rfl⟩
    obtain ⟨f, hf, rfl⟩ := List.mem_map.1 hk
    exact ⟨_, List.mem_map_of_mem (hperm.mem_iff.2 hf), rfl⟩

/-- **Characters keep their values.** The value under a name that consists of characters is the one that
is stored under it. Other names of the row may be read as this one, but they are written before it. -/
theorem lastNamed?_renamed {row : Row} (hnodup : row.names.Nodup) {name : Text} {v : Value}
    (hname : Text.isUtf8 name = true) (hget : row.get? name = some v) :
    lastNamed? row.renamed name = some v := by
  have hperm := Json.byWrittenName_perm row
  have hsorted : (Row.names (Json.byWrittenName row)).Nodup := (names_perm hperm).nodup_iff.2 hnodup
  obtain ⟨before, after, hsplit⟩ := List.append_of_mem (hperm.mem_iff.2 (mem_of_get? hget))
  have hbehind : ∀ e ∈ after, Json.quoted name ≤ Json.quoted e.1 := by
    have hpairwise := Json.byWrittenName_pairwise row
    rw [hsplit, List.pairwise_append, List.pairwise_cons] at hpairwise
    exact hpairwise.2.1.1
  have hfresh : ∀ e ∈ after, e.1 ≠ name := by
    rw [hsplit, names, List.map_append, List.map_cons, List.nodup_append, List.nodup_cons] at hsorted
    intro e he hsame
    exact hsorted.2.1.1 (List.mem_map.2 ⟨e, he, hsame⟩)
  rw [renamed, hsplit, List.map_append, List.map_cons, Text.repaired_of_isUtf8 hname]
  refine lastNamed?_append_cons v fun e he hread => ?_
  obtain ⟨f, hf, rfl⟩ := List.mem_map.1 he
  -- another name behind this one that is read as it would be stray, and so be written before it
  cases hutf : Text.isUtf8 f.1 with
  | true => exact hfresh f hf ((Text.repaired_of_isUtf8 hutf).symm.trans hread)
  | false =>
    have hlt := Json.quoted_lt_of_stray hutf
    have hread' : Text.repaired f.1 = name := hread
    rw [hread'] at hlt
    exact hbehind f hf hlt

/-- If all names consist of characters, a row is stored as it is, name by name. -/
theorem lastNamed?_renamed_of_characters {row : Row} (hnodup : row.names.Nodup)
    (hnames : ∀ name ∈ row.names, Text.isUtf8 name = true) (name : Text) :
    lastNamed? row.renamed name = row.get? name := by
  cases hget : row.get? name with
  | some v =>
    have hmem : name ∈ row.names := List.mem_map_of_mem (mem_of_get? hget)
    exact lastNamed?_renamed hnodup (hnames name hmem) hget
  | none =>
    rw [← Option.not_isSome_iff_eq_none, renamed_isSome]
    intro hmem
    obtain ⟨k, hk, rfl⟩ := List.mem_map.1 hmem
    rw [Text.repaired_of_isUtf8 (hnames k hk)] at hget
    exact get?_eq_none_iff.1 hget hk

/-- Nothing is stored under a name that is no sequence of characters. -/
theorem lastNamed?_renamed_of_stray (row : Row) {name : Text} (hname : Text.isUtf8 name = false) :
    lastNamed? row.renamed name = none := by
  rw [← Option.not_isSome_iff_eq_none, renamed_isSome]
  intro hmem
  obtain ⟨k, -, rfl⟩ := List.mem_map.1 hmem
  rw [Text.isUtf8_repaired] at hname
  cases hname

end Row
end DocFilter
