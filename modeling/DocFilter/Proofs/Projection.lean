import DocFilter.Proofs.ProjectionReading
import DocFilter.Proofs.Utf8

/-!
The projection of a compiled statement. Names of selected fields are written as they are, and read
back just if each of them is a path of bare names (`compile_projection`): every other name changes
what is selected. Here are the way from the columns to the fields, the clauses that end the
projection, and the two put together.
-/

set_option autoImplicit false

namespace DocFilter

open Text (byte)

namespace Projection

/-! ## Paths of bare names are read as they are written -/

/-- The names of a path. -/
theorem names_of_isPath {field : Text} (h : isPath field) :
    ∃ names : List Text, names ≠ [] ∧ (∀ n ∈ names, isBareName n) ∧
      field = Text.join [byte '.'] names :=
  ⟨split (byte '.') false field, split_ne_nil _ _ _, List.all_eq_true.mp h, (join_split _ _ _).symm⟩

/-- A rest that ends a word and does not make it a keyword of two words. -/
def Settled (rest : Text) : Prop :=
  rest.head?.all (fun b => !isWordByte b) = true ∧
    firstWord (rest.dropWhile isSpace) ≠ Text.ofString "by"

/-- A word is read up to its end if what follows is settled. Keywords are compared in lower case, so the
word appears in this form. -/
theorem firstWord_append {w rest : Text} (hw : ∀ b ∈ w, isWordByte b) (hrest : Settled rest) :
    firstWord (w ++ rest) = w.map Text.lowerAscii ∧ (w ++ rest).dropWhile isWordByte = rest := by
  induction w with
  | nil =>
    cases rest with
    | nil => exact ⟨rfl, rfl⟩
    | cons b rest =>
      have hb : isWordByte b = false := by simpa [Settled] using hrest.1
      simp [firstWord, hb]
  | cons b w ih =>
    have hb := hw b List.mem_cons_self
    obtain ⟨hfirst, hdrop⟩ := ih fun c hc => hw c (List.mem_cons_of_mem _ hc)
    refine ⟨?_, ?_⟩
    · rw [firstWord, List.cons_append, List.takeWhile_cons, if_pos hb, List.map_cons, List.map_cons]
      exact congrArg _ hfirst
    · rw [List.cons_append, List.dropWhile_cons, if_pos hb, hdrop]

/-- A bare name opens no clause: it is no keyword of one word by definition, and what follows does not make
it one of two words. -/
theorem opensClause_bare {w rest : Text} (hw : isBareName w) (hrest : Settled rest) :
    opensClause (w ++ rest) = false := by
  obtain ⟨-, hbytes, hkeyword⟩ := bytes_of_isBareName hw
  obtain ⟨hfirst, hdrop⟩ := firstWord_append hbytes hrest
  rw [opensClause, hfirst, hkeyword, hdrop, beq_false_of_ne hrest.2, Bool.and_false, Bool.or_false]

theorem opensClause_nonword {b : UInt8} (hb : isWordByte b = false) (rest : Text) :
    opensClause (b :: rest) = false := by
  have hfirst : firstWord (b :: rest) = [] := by rw [firstWord, List.takeWhile_cons, hb]; rfl
  rw [opensClause, hfirst]
  rfl

/-- Reading on inside a word: all of it belongs to the projection, for a keyword counts only where a word
begins. Behind the word the reader is where a word may begin again. -/
theorem region_word {w : Text} (hw : ∀ b ∈ w, isWordByte b) {rest : Text} (hrest : Settled rest) :
    region (.outside true) (w ++ rest) = w ++ region (.outside false) rest := by
  induction w with
  | nil =>
    cases rest with
    | nil => rfl
    | cons b rest =>
      have hb : isWordByte b = false := by simpa [Settled] using hrest.1
      -- what is settled begins with no byte of words, and so with no clause
      rw [List.nil_append, List.nil_append, region, region, opensClause_nonword hb]
      rfl
  | cons b w ih =>
    have hb := hw b List.mem_cons_self
    have htick : (b == byte '\x60') = false := beq_false_of_ne (ne_of_isWordByte hb (by decide))
    rw [List.cons_append, region, htick, hb, Bool.not_true, Bool.false_and,
      if_neg Bool.false_ne_true, if_neg Bool.false_ne_true,
      ih fun c hc => hw c (List.mem_cons_of_mem _ hc)]
    rfl

/-- A bare name belongs to the projection as a whole. The reader asks at its first byte whether a clause
begins, and inside of it no more. -/
theorem region_bare {w rest : Text} (hw : isBareName w) (hrest : Settled rest) :
    region (.outside false) (w ++ rest) = w ++ region (.outside false) rest := by
  have hopens := opensClause_bare hw hrest
  obtain ⟨⟨b, w, rfl⟩, hbytes, -⟩ := bytes_of_isBareName hw
  have hb := hbytes b List.mem_cons_self
  have htick : (b == byte '\x60') = false := beq_false_of_ne (ne_of_isWordByte hb (by decide))
  rw [List.cons_append] at hopens ⊢
  rw [region, hopens, htick, hb, Bool.and_false, if_neg Bool.false_ne_true,
    if_neg Bool.false_ne_true, region_word (fun c hc => hbytes c (List.mem_cons_of_mem _ hc)) hrest]
  rfl

/-- A byte outside backticks that belongs to no word. -/
theorem region_nonword {b : UInt8} (hb : isWordByte b = false) (htick : b ≠ byte '\x60')
    (rest : Text) : region (.outside false) (b :: rest) = b :: region (.outside false) rest := by
  rw [region, opensClause_nonword hb, hb, beq_false_of_ne htick, Bool.and_false,
    if_neg Bool.false_ne_true, if_neg Bool.false_ne_true]

theorem region_tick (rest : Text) :
    region (.outside false) (byte '\x60' :: rest) = byte '\x60' :: region .quoted rest := by
  rw [region, opensClause_nonword (by decide), Bool.and_false, if_neg Bool.false_ne_true,
    beq_self_eq_true, if_pos rfl]

/-- What stands between backticks belongs to the projection, up to the closing one. Doubled backticks leave
the quoted part and enter it again at once. -/
theorem region_doubled (name rest : Text) :
    region .quoted (doubled name ++ ([byte '\x60'] ++ rest))
      = doubled name ++ ([byte '\x60'] ++ region (.outside false) rest) := by
  induction name with
  | nil =>
    show region .quoted (byte '\x60' :: rest) = byte '\x60' :: _
    rw [region, beq_self_eq_true, if_pos rfl]
    rfl
  | cons b name ih =>
    rw [doubled_cons]
    by_cases hb : b == byte '\x60'
    -- The first of two backticks seems to close the name, the second opens it again.
    · obtain rfl := beq_iff_eq.mp hb
      rw [if_pos hb]
      show region .quoted (byte '\x60' :: byte '\x60' :: (doubled name ++ _)) = _
      rw [region, beq_self_eq_true, if_pos rfl, region_tick, ih]
      rfl
    · rw [if_neg hb]
      show region .quoted (b :: (doubled name ++ _)) = _
      rw [region, if_neg hb, ih]
      rfl

/-- A quoted name belongs to the projection, whatever its bytes are. -/
theorem region_identifier (name rest : Text) :
    region (.outside false) (identifier name ++ rest)
      = identifier name ++ region (.outside false) rest := by
  rw [identifier_eq, List.cons_append, region_tick, List.append_assoc, region_doubled,
    ← List.append_assoc]
  rfl

/-- A byte that is neither in a word nor a blank settles what is before it. Dots and commas are the cases in
question. -/
theorem settled_of_nonword {b : UInt8} (hb : isWordByte b = false) (hspace : isSpace b = false)
    (rest : Text) : Settled (b :: rest) := by
  refine ⟨by simp [hb], ?_⟩
  rw [List.dropWhile_cons, hspace, if_neg Bool.false_ne_true, firstWord, List.takeWhile_cons, hb,
    if_neg Bool.false_ne_true]
  decide

/-- A path of bare names belongs to the projection. The induction is on the names; the dot between two of
them settles the first. -/
theorem region_path {names : List Text} (hnames : ∀ n ∈ names, isBareName n) {rest : Text}
    (hrest : Settled rest) :
    region (.outside false) (Text.join [byte '.'] names ++ rest)
      = Text.join [byte '.'] names ++ region (.outside false) rest := by
  induction names with
  | nil => rfl
  | cons n names ih =>
    have hn := hnames n List.mem_cons_self
    cases names with
    | nil => exact region_bare hn hrest
    | cons m names =>
      -- the dot ends the name and opens no clause
      have hdot : Settled ([byte '.'] ++ (Text.join [byte '.'] (m :: names) ++ rest)) :=
        settled_of_nonword (by decide) (by decide) _
      rw [join_cons _ _ (List.cons_ne_nil _ _), List.append_assoc, List.append_assoc,
        region_bare hn hdot, List.singleton_append, region_nonword (by decide) (by decide),
        ih fun k hk => hnames k (List.mem_cons_of_mem _ hk), List.append_assoc, List.append_assoc]
      rfl

/-- A column belongs to the projection if its field is a path. The scope in front is quoted, and may be
anything. -/
theorem region_column {scope field rest : Text} (hfield : isPath field) (hrest : Settled rest) :
    region (.outside false) (Select.column scope field ++ rest)
      = Select.column scope field ++ region (.outside false) rest := by
  obtain ⟨names, -, hnames, rfl⟩ := names_of_isPath hfield
  rw [column_eq]
  split
  · exact region_path hnames hrest
  · rw [List.append_assoc, List.append_assoc, region_identifier, List.singleton_append,
      region_nonword (by decide) (by decide), region_path hnames hrest, List.append_assoc,
      List.append_assoc]
    rfl

/-- All columns belong to the projection. The comma between two of them settles the first, and what follows
the last is settled by assumption. -/
theorem region_columns {scope : Text} {fs : List Text} (hfs : ∀ f ∈ fs, isPath f) {rest : Text}
    (hrest : Settled rest) :
    region (.outside false) (Text.join [byte ','] (fs.map (Select.column scope)) ++ rest)
      = Text.join [byte ','] (fs.map (Select.column scope)) ++ region (.outside false) rest := by
  induction fs with
  | nil => rfl
  | cons f fs ih =>
    have hf := hfs f List.mem_cons_self
    cases fs with
    | nil => exact region_column hf hrest
    | cons g fs =>
      have hcomma : Settled ([byte ','] ++
          (Text.join [byte ','] ((g :: fs).map (Select.column scope)) ++ rest)) :=
        settled_of_nonword (by decide) (by decide) _
      rw [List.map_cons, join_cons _ _ (by simp), List.append_assoc, List.append_assoc,
        region_column hf hcomma, List.singleton_append, region_nonword (by decide) (by decide),
        ih fun k hk => hfs k (List.mem_cons_of_mem _ hk), List.append_assoc, List.append_assoc]
      rfl

/-! ## Items of paths -/

/-- A path has only bytes of words and dots, so that splitting it at commas or trimming it changes nothing.
-/
theorem bytes_of_join {names : List Text} (hnames : ∀ n ∈ names, isBareName n) :
    ∀ b ∈ Text.join [byte '.'] names, isWordByte b ∨ b = byte '.' := by
  intro b hb
  rcases Text.mem_join hb with hb | ⟨n, hn, hb⟩
  · exact .inr (List.mem_singleton.1 hb)
  · obtain ⟨-, hbytes, -⟩ := bytes_of_isBareName (hnames n hn)
    exact .inl (hbytes b hb)

/-- A path is not empty, and none of its bytes is white space, a comma or a backtick. -/
theorem bytes_of_isPath {field : Text} (hfield : isPath field) :
    field ≠ [] ∧ ∀ b ∈ field, isSpace b = false ∧ b ≠ byte ',' ∧ b ≠ byte '\x60' := by
  refine ⟨?_, fun b hb => ?_⟩
  · rintro rfl
    cases hfield
  · obtain ⟨names, -, hnames, rfl⟩ := names_of_isPath hfield
    rcases bytes_of_join hnames b hb with hword | rfl
    · exact ⟨not_space_of_isWordByte hword, ne_of_isWordByte hword (by decide),
        ne_of_isWordByte hword (by decide)⟩
    · decide

/-- White space behind a text whose ends are no white space is trimmed away, and nothing else is. -/
theorem trim_append {a b : UInt8} {t t' x : Text} (heq : a :: t = t' ++ [b])
    (ha : isSpace a = false) (hb : isSpace b = false) (hx : ∀ c ∈ x, isSpace c) :
    trim (a :: t ++ x) = a :: t := by
  have hdrop : (a :: t ++ x).dropWhile isSpace = a :: t ++ x := by
    rw [List.cons_append, List.dropWhile_cons, ha, if_neg Bool.false_ne_true]
  have hreverse : ((a :: t ++ x).reverse).dropWhile isSpace = (a :: t).reverse := by
    rw [List.reverse_append, List.dropWhile_append_of_pos fun c hc => hx c (List.mem_reverse.mp hc),
      heq, List.reverse_append, List.reverse_singleton, List.singleton_append, List.dropWhile_cons,
      hb, if_neg Bool.false_ne_true]
  rw [trim, hdrop, Text.dropEndWhile, hreverse, List.reverse_reverse]

/-- White space behind a column does not count. A column ends in a byte of a path, which is no white space,
and begins with one or with a backtick. -/
theorem trim_column {scope field x : Text} (hfield : isPath field) (hx : ∀ c ∈ x, isSpace c) :
    trim (Select.column scope field ++ x) = Select.column scope field := by
  obtain ⟨hne, hbytes⟩ := bytes_of_isPath hfield
  obtain ⟨init, last, hlast⟩ := (List.eq_nil_or_concat field).resolve_left hne
  rw [List.concat_eq_append] at hlast
  have hspace := (hbytes last (by rw [hlast]; simp)).1
  rw [column_eq]
  split
  · obtain ⟨b, rest, rfl⟩ := List.exists_cons_of_ne_nil hne
    exact trim_append hlast (hbytes b List.mem_cons_self).1 hspace hx
  · have hends : identifier scope ++ [byte '.'] ++ field
        = identifier scope ++ [byte '.'] ++ init ++ [last] := by rw [List.append_assoc _ init, ← hlast]
    exact trim_append (a := byte '\x60') hends (by decide) hspace hx

/-- A column is read as its field, also with white space behind it. If there is a scope, the first name has
to be the scope, and it is. -/
theorem field?_column {scope field x : Text} (hfield : isPath field) (hx : ∀ c ∈ x, isSpace c) :
    field? scope (Select.column scope field ++ x) = some field := by
  -- a path falls into bare names, each of which is read as itself
  have hnames : (split (byte '.') false field).mapM name? = some (split (byte '.') false field) := by
    rw [mapM_eq_some_iff]
    exact List.map_congr_left fun n hn => if_pos (List.all_eq_true.mp hfield n hn)
  have hjoin := join_split (byte '.') false field
  rw [field?, trim_column hfield hx, column_eq]
  by_cases hscope : scope.isEmpty
  · rw [if_pos hscope, List.nil_append, hnames, Option.bind_some]
    unfold pathOf?
    rw [if_pos hscope, hjoin]
  -- with a scope there is one name more, in front and in backticks
  · obtain ⟨n, names, hsplit⟩ := List.exists_cons_of_ne_nil (split_ne_nil (byte '.') false field)
    have hall : (identifier scope :: split (byte '.') false field).mapM name?
        = some (scope :: split (byte '.') false field) := by
      rw [List.mapM_cons, name?_identifier, hnames]
      rfl
    rw [if_neg hscope, (Whole.identifier (by decide) scope).split_sep, hall, Option.bind_some]
    unfold pathOf?
    rw [if_neg hscope, hsplit]
    rw [hsplit] at hjoin
    show (if scope == scope then some _ else none) = _
    rw [if_pos (beq_self_eq_true scope), hjoin]

/-- A column is not split at commas: the scope is quoted, and a path has none. -/
theorem whole_column {scope field : Text} (hfield : isPath field) :
    Whole (byte ',') (Select.column scope field) := by
  obtain ⟨-, hbytes⟩ := bytes_of_isPath hfield
  have hwhole : Whole (byte ',') field := Whole.of_bytes fun b hb => (hbytes b hb).2
  rw [column_eq]
  split
  · exact hwhole
  · exact ((Whole.identifier (by decide) scope).append
      (Whole.of_bytes (List.forall_mem_singleton.2 (by decide)))).append hwhole

/-- The columns of fields that are paths are read as these fields, in their order. The white space behind
the last is the blank in front of the next clause. -/
theorem items_read {scope : Text} {fs : List Text} (hfs : ∀ f ∈ fs, isPath f) (hne : fs ≠ [])
    {x : Text} (hx : ∀ c ∈ x, isSpace c) :
    (split (byte ',') false (Text.join [byte ','] (fs.map (Select.column scope)) ++ x)).mapM
      (field? scope) = some fs := by
  induction fs with
  | nil => exact absurd rfl hne
  | cons f fs ih =>
    have hf := hfs f List.mem_cons_self
    have hwhole : Whole (byte ',') (Select.column scope f) := whole_column hf
    cases fs with
    | nil =>
      -- white space has no comma and no backtick in it
      have hspaces : Whole (byte ',') x := Whole.of_bytes fun c hc => by
        have hc := hx c hc
        constructor <;> rintro rfl <;> revert hc <;> decide
      show (split (byte ',') false (Select.column scope f ++ x)).mapM (field? scope) = some [f]
      rw [(hwhole.append hspaces).split_eq, List.mapM_cons, List.mapM_nil, field?_column hf hx]
      rfl
    | cons g fs =>
      rw [List.map_cons, join_cons _ _ (by simp), List.append_assoc, hwhole.split_sep,
        List.mapM_cons, ih (fun k hk => hfs k (List.mem_cons_of_mem _ hk)) (List.cons_ne_nil _ _)]
      have hfield : field? scope (Select.column scope f ++ []) = some f :=
        field?_column hf (by simp)
      rw [List.append_nil] at hfield
      rw [hfield]
      rfl

/-! ## The clauses behind the projection -/

/-- What stands behind the columns of a statement. -/
def clauses (s : Select) : Text :=
  Select.clause " FROM " identifier (if s.scope.isEmpty then none else some s.scope) ++
    Select.clause " WHERE " (Formula.text .alone) s.condition ++ s.closing

/-- The text of a statement is the word SELECT, the columns with commas between them, and the clauses. -/
theorem text_eq_clauses (s : Select) :
    s.text = Text.ofString "SELECT " ++
      (Text.join [byte ','] (s.columns.map (Select.column s.scope)) ++ clauses s) := by
  rw [Select.text, clauses, Select.closing]
  simp only [List.append_assoc]
  rfl

/-- A rest of a statement: it is empty, or a clause begins behind a blank. -/
def Clausal (t : Text) : Prop := t = [] ∨ ∃ rest, t = byte ' ' :: rest ∧ opensClause rest

/-- A clause that may be missing, in front of clauses: if it is there, its keyword begins behind a blank. -/
theorem Clausal.clause {α : Type} (keyword : Text)
    (hkeyword : ∀ rest, opensClause (keyword ++ rest)) (write : α → Text) (o : Option α)
    {rest : Text} (hrest : Clausal rest) :
    Clausal (Select.clause (byte ' ' :: keyword) write o ++ rest) := by
  cases o with
  | none => exact hrest
  | some a =>
    refine .inr ⟨keyword ++ (write a ++ rest), ?_, hkeyword _⟩
    rw [Select.clause, List.append_assoc]
    rfl

/-- What stands behind the columns is empty or begins with a clause, whichever clauses there are. So the
projection ends in the right place. -/
theorem clausal_clauses (s : Select) : Clausal (clauses s) := by
  -- from the last clause to the first
  have hoffset := Clausal.clause (Text.ofString "OFFSET ") (fun _ => rfl) Text.ofNat
    s.offset (.inl rfl)
  have hlimit := Clausal.clause (Text.ofString "LIMIT ") (fun _ => rfl) Text.ofNat
    s.limit hoffset
  have horder := Clausal.clause (Text.ofString "ORDER BY ") (fun _ => rfl)
    (fun ks => Text.join (Text.ofString ", ") (ks.map Select.orderKey))
    (if s.order.isEmpty then none else some s.order) hlimit
  have hwhere := Clausal.clause (Text.ofString "WHERE ") (fun _ => rfl)
    (Formula.text .alone) s.condition horder
  have hfrom := Clausal.clause (Text.ofString "FROM ") (fun _ => rfl) identifier
    (if s.scope.isEmpty then none else some s.scope) hwhere
  rw [clauses, Select.closing]
  simp only [List.append_assoc, List.append_nil] at hfrom ⊢
  exact hfrom

/-- The keyword of a clause begins with a byte of words, and is not the second word of another. The one
keyword of two words is known by the first of them. -/
theorem firstWord_of_opensClause {t : Text} (h : opensClause t) :
    (∃ b rest, t = b :: rest ∧ isWordByte b) ∧ firstWord t ≠ Text.ofString "by" := by
  have hword : firstWord t ∈ Text.ofString "order" :: keywords := by
    rw [opensClause, Bool.or_eq_true, Bool.and_eq_true, beq_iff_eq] at h
    rcases h with h | h
    · exact List.mem_cons_of_mem _ (List.contains_iff_mem.mp h)
    · rw [h.1]
      exact List.mem_cons_self
  refine ⟨?_, fun hby => ?_⟩
  · cases t with
    | nil => exact absurd hword (by decide)
    | cons b rest =>
      refine ⟨b, rest, rfl, ?_⟩
      by_contra hb
      rw [firstWord, List.takeWhile_cons, if_neg hb] at hword
      exact absurd hword (by decide)
  · rw [hby] at hword
    exact absurd hword (by decide)

/-- Clauses begin with at most one blank. A field whose own text makes up more of a margin than that is not
read from them. -/
theorem Clausal.margin_le {t : Text} (h : Clausal t) : margin t ≤ 1 := by
  rcases h with rfl | ⟨rest, rfl, hopens⟩
  · decide
  · obtain ⟨⟨b, rest, rfl, hb⟩, -⟩ := firstWord_of_opensClause hopens
    have htick : (b == byte '\x60') = false := beq_false_of_ne (ne_of_isWordByte hb (by decide))
    rw [margin, margin, not_space_of_isWordByte hb, htick]
    exact Nat.le_refl 1

/-- Clauses settle the column in front of them: they begin with a blank, and the word behind it is a keyword
other than BY. -/
theorem Clausal.settled {t : Text} (h : Clausal t) : Settled t := by
  rcases h with rfl | ⟨rest, rfl, hopens⟩
  · exact ⟨rfl, by decide⟩
  · obtain ⟨⟨b, rest, rfl, hb⟩, hby⟩ := firstWord_of_opensClause hopens
    refine ⟨rfl, ?_⟩
    rw [List.dropWhile_cons, if_pos (by decide), List.dropWhile_cons, not_space_of_isWordByte hb]
    exact hby

/-- Of the clauses only the blank in front of them is still in the projection. -/
theorem Clausal.region_spaces {t : Text} (h : Clausal t) :
    ∀ c ∈ region (.outside false) t, isSpace c := by
  rcases h with rfl | ⟨rest, rfl, hopens⟩
  · simp [region]
  · obtain ⟨⟨b, rest, rfl, -⟩, -⟩ := firstWord_of_opensClause hopens
    rw [region_nonword (by decide) (by decide), region, hopens, if_pos (by decide)]
    exact List.forall_mem_singleton.2 (by decide)

/-! ## Selected fields -/

/-- One directive changes the selection if it is a selection, and leaves it otherwise. An empty selection
counts as one. -/
theorem add_selected {c c' : Clauses} {d : Directive} (h : c.add d = .ok c') :
    c'.selected = (Builder.selection? d).getD c.selected := by
  cases d with
  | comparison op field v => cases h; rfl
  | logical op children => cases h; rfl
  | modifier m =>
    simp only [Clauses.add] at h
    rw [Builder.selection?]
    revert h
    cases m.kind with
    | select => intro h; cases h; rfl
    | limit => cases m.amount.amount? <;> intro h <;> cases h; rfl
    | skip => cases m.amount.amount? <;> intro h <;> cases h; rfl
    | sort => cases m.sort.isEmpty <;> intro h <;> cases h; rfl
    | other name => intro h; cases h
  | extension name payload => cases h; rfl
  | missing => cases h

/-- The last selection counts. -/
theorem addAll_selected {c c' : Clauses} {ds : List Directive} (h : c.addAll ds = .ok c') :
    c'.selected = ds.foldl (fun fields d => (Builder.selection? d).getD fields) c.selected := by
  induction ds generalizing c with
  | nil => cases h; rfl
  | cons d rest ih =>
    rw [Clauses.addAll] at h
    obtain ⟨c₁, hd, hrest⟩ := bind_eq_ok h
    rw [ih hrest, add_selected hd, List.foldl_cons]

/-- The columns of a statement are the fields of the last selection, if this has any; the scope is that of
the options. -/
theorem select_columns {options : CompileOptions} {ds : List Directive} {s : Select}
    {params : List Value} (h : select options ds = .ok (s, params)) (hfields : fields ds ≠ []) :
    s.columns = fields ds ∧ s.scope = options.scope := by
  rw [select] at h
  obtain ⟨c, hc, h⟩ := bind_eq_ok h
  obtain ⟨condition, -, h⟩ := bind_eq_ok h
  have hselected : c.selected = fields ds := addAll_selected hc
  cases h
  rw [hselected]
  exact ⟨if_neg (by simpa using hfields), rfl⟩

/-- A statement with a selection: its columns are the selected fields, and clauses follow. -/
theorem compile_columns {options : CompileOptions} {ds : List Directive} {st : Statement}
    (h : compile options ds = .ok st) (hfields : fields ds ≠ []) :
    ∃ rest, Clausal rest ∧ st.text = Text.ofString "SELECT " ++
      (Text.join [byte ','] ((fields ds).map (Select.column options.scope)) ++ rest) := by
  rw [compile] at h
  obtain ⟨⟨s, params⟩, hs, hst⟩ := bind_eq_ok h
  cases hst
  obtain ⟨hcolumns, hscope⟩ := select_columns hs hfields
  refine ⟨clauses s, clausal_clauses s, ?_⟩
  rw [text_eq_clauses, hcolumns, hscope]

theorem read_select (scope t : Text) :
    read scope (Text.ofString "SELECT " ++ t)
      = (split (byte ',') false (region (.outside false) t)).mapM (field? scope) := rfl

/-- What is read of a text is a front of it. The reader keeps every byte up to the place where it stops, in
names as well as between them. -/
theorem region_append (p : Position) (t : Text) : ∃ rest, t = region p t ++ rest := by
  induction t generalizing p with
  | nil => exact ⟨[], by cases p <;> rfl⟩
  | cons b t ih =>
    cases p with
    | quoted =>
      obtain ⟨rest, hrest⟩ := ih (if b == byte '\x60' then .outside false else .quoted)
      exact ⟨rest, congrArg (b :: ·) hrest⟩
    | outside afterWord =>
      rw [region]
      split
      · exact ⟨b :: t, rfl⟩
      · obtain ⟨rest, hrest⟩ := ih (if b == byte '\x60' then .quoted else .outside (isWordByte b))
        exact ⟨rest, congrArg (b :: ·) hrest⟩

/-- Fields whose columns are followed by clauses are read just if they are paths of bare names. For other
fields, whatever is read, it is not these fields. -/
theorem read_columns_iff (scope : Text) {fs : List Text} (hne : fs ≠ []) {rest : Text}
    (hrest : Clausal rest) :
    read scope (Text.ofString "SELECT " ++
        (Text.join [byte ','] (fs.map (Select.column scope)) ++ rest)) = some fs
      ↔ ∀ f ∈ fs, isPath f := by
  rw [read_select]
  constructor
  -- what is read is a front of the text, and this forces every field to be a path
  · intro hread
    obtain ⟨tail, htail⟩ := region_append (.outside false)
      (Text.join [byte ','] (fs.map (Select.column scope)) ++ rest)
    rw [← join_split (byte ',') false (region _ _)] at htail
    exact fields_forced (mapM_eq_some_iff.mp hread) hrest.margin_le htail
  · intro hfs
    rw [region_columns hfs hrest.settled]
    exact items_read hfs hne hrest.region_spaces

end Projection

/-- **What a selection says.** The projection of a statement is read as the fields that were
selected just if each of them is a path of bare names, and then another such selection has another
text; any other name (one with a comma, a blank, a backtick or a keyword in it) changes what is
selected. -/
theorem compile_projection (options : CompileOptions) (ds : List Directive) (st : Statement)
    (h : compile options ds = .ok st) (hfields : Projection.fields ds ≠ []) :
    (Projection.read options.scope st.text = some (Projection.fields ds)
      ↔ ∀ f ∈ Projection.fields ds, Projection.isPath f) ∧
    ∀ ds' st', compile options ds' = .ok st' → Projection.fields ds' ≠ [] →
      (∀ f ∈ Projection.fields ds, Projection.isPath f) →
      (∀ f ∈ Projection.fields ds', Projection.isPath f) →
      st.text = st'.text → Projection.fields ds = Projection.fields ds' := by
  obtain ⟨rest, hrest, htext⟩ := Projection.compile_columns h hfields
  have hread := Projection.read_columns_iff options.scope hfields hrest
  rw [← htext] at hread
  refine ⟨hread, fun ds' st' h' hfields' hpath hpath' heq => ?_⟩
  -- equal texts are read as the same fields
  obtain ⟨rest', hrest', htext'⟩ := Projection.compile_columns h' hfields'
  have hread' := (Projection.read_columns_iff options.scope hfields' hrest').mpr hpath'
  rw [← htext', ← heq, hread.mpr hpath] at hread'
  exact Option.some.inj hread'

/-- A selection of one field with a comma in its name. -/
def commaSelection : List Directive := [.select ["a,b"]]

/-- It is read as two fields, and has the text of the selection of these two. -/
theorem commaSelection_reads_two :
    ∃ st, compile {} commaSelection = .ok st ∧
      compile {} [.select ["a", "b"]] = .ok st ∧
      Projection.fields commaSelection = [Text.ofString "a,b"] ∧
      Projection.read [] st.text = some [Text.ofString "a", Text.ofString "b"] ∧
      Projection.read [] st.text ≠ some (Projection.fields commaSelection) := by
  have hst : compile {} commaSelection = .ok ⟨Text.ofString "SELECT a,b", []⟩ := by rfl
  obtain ⟨hread, -⟩ := compile_projection {} commaSelection _ hst (by decide)
  refine ⟨_, hst, by rfl, by rfl, by decide +kernel, fun h => ?_⟩
  exact absurd (hread.mp h _ List.mem_cons_self) (by decide +kernel)

end DocFilter
