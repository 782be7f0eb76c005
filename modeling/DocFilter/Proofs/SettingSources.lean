import DocFilter.Settings.FileTree
import DocFilter.Proofs.Truth
import Mathlib.Data.List.Nodup

/-!
Where a setting comes from. The environment, the local and the shared file of variables are asked in
this order, and the first that defines the variable of a key settles what the variable is. If this is
not the empty text, it is the setting; otherwise the file of settings is asked, and last the default
(`load_precedence`). So an empty variable hides those behind it, and yet is none itself. Nothing of this
depends on how a file of settings is read, so it is shown for every reader of such files, and `load` is
`loadWith` with one of them.

The files of variables take effect through the environment, which `loadWith` adds to after it has read
the file of settings. The two lemmas that carry the argument say what this does to one variable:
adding a file keeps what is defined and takes up what is not (`environment_foldl`), and both files
one after the other make the environment give the first definition there is (`addFiles_layers`). A
variable with a zero byte in its value cannot be added, so such a definition does not count
(`definition`), and what a weaker source defines takes its place.
-/

set_option autoImplicit false

namespace DocFilter

/-! ## Names in a file of variables -/

namespace Dotenv

/-- Setting a variable brings in no name but its own: every other name after it was defined before. This is
all that the uniqueness of names needs to know of `set`. -/
theorem mem_names_set {vars : Variables} {name value x : Text}
    (hx : x ∈ (set vars name value).map Prod.fst) : x = name ∨ x ∈ vars.map Prod.fst := by
  induction vars with
  | nil => simpa [set] using hx
  | cons entry rest ih =>
    obtain ⟨n, old⟩ := entry
    rw [set] at hx
    by_cases hn : n = name
    -- the name is there, and its value is replaced in place
    · rw [if_pos (by simpa using hn)] at hx
      simp only [List.map_cons, List.mem_cons] at hx ⊢
      tauto
    · rw [if_neg (by simpa using hn)] at hx
      simp only [List.map_cons, List.mem_cons] at hx ⊢
      tauto

/-- Setting a variable keeps names unique. A name that is there is given its new value in place, so a second
definition of it in a file never makes a second entry. -/
theorem nodup_set {vars : Variables} (h : (vars.map Prod.fst).Nodup) (name value : Text) :
    ((set vars name value).map Prod.fst).Nodup := by
  induction vars with
  | nil => simp [set]
  | cons entry rest ih =>
    obtain ⟨n, old⟩ := entry
    rw [List.map_cons, List.nodup_cons] at h
    rw [set]
    by_cases hn : n = name
    · rw [if_pos (by simpa using hn), List.map_cons, List.nodup_cons, ← hn]
      exact h
    · rw [if_neg (by simpa using hn), List.map_cons, List.nodup_cons]
      refine ⟨?_, ih h.2⟩
      intro hmem
      rcases mem_names_set hmem with hsame | hrest
      · exact hn hsame
      · exact h.1 hrest

/-- Reading lines keeps names unique. The induction is on the fuel, which counts the bytes left; every line
that is read goes through `set`. -/
theorem nodup_readAll {fuel : Nat} {vars vars' : Variables} {t : Text}
    (hvars : (vars.map Prod.fst).Nodup) (h : readAll fuel vars t = .ok vars') :
    (vars'.map Prod.fst).Nodup := by
  induction fuel generalizing vars t with
  | zero =>
    obtain rfl := Except.ok.inj h
    exact hvars
  | succ fuel ih =>
    rw [readAll] at h
    split at h
    · obtain rfl := Except.ok.inj h
      exact hvars
    -- a line: its name, its value, and the lines behind it
    · obtain ⟨⟨name, rest⟩, -, h⟩ := bind_eq_ok h
      obtain ⟨⟨value, after⟩, -, h⟩ := bind_eq_ok h
      exact ih (nodup_set hvars name value) h

/-- A file of variables defines each name once. -/
theorem nodup_parse {t : Text} {vars : Variables} (h : parse t = .ok vars) :
    (vars.map Prod.fst).Nodup := by
  have hnone : (([] : Variables).map Prod.fst).Nodup := List.nodup_nil
  exact nodup_readAll hnone h

end Dotenv

namespace Settings

/-! ## Sources -/

/-- The variables of a file: none if it cannot be read, else those of its text. -/
inductive HasVariables (w : Surroundings) (file : Text) : Dotenv.Variables → Prop
  | absent {why : Text} : w.read file = .error why → HasVariables w file []
  | present {t : Text} {vars : Dotenv.Variables} :
      w.read file = .ok t → Dotenv.parse t = .ok vars → HasVariables w file vars

/-- The sources of the settings, all of which can be understood: the table that a reader finds in the
file of settings, and the variables of the local and of the shared file. -/
structure Sources (reader : Reader) (w : Surroundings) (path : Text) where
  table : Table
  localVariables : Dotenv.Variables
  sharedVariables : Dotenv.Variables
  hasTable : fileTable reader w path = .ok table
  hasLocal : HasVariables w ".env.local" localVariables
  hasShared : HasVariables w ".env" sharedVariables

/-- What a file defines a variable as. A value with a zero byte is none, since no environment can
hold it. -/
def definition (vars : Dotenv.Variables) (name : Text) : Option Text :=
  (vars.lookup name).filter (!·.contains 0)

/-- What the environment, the local and the shared file define the variable of a key as. -/
def Sources.definitions {reader : Reader} {w : Surroundings} {path : Text} (s : Sources reader w path)
    (k : Key) : List (Option Text) :=
  [w.getVariable k.variableName, definition s.localVariables k.variableName,
    definition s.sharedVariables k.variableName]

/-- The first definition that there is. -/
def firstOf (definitions : List (Option Text)) : Option Text := definitions.findSome? id

/-- The setting that a key stands for, if it is a text. -/
def Key.text? : Key → Option (Settings → Text)
  | .queryEndpoint => some (·.queryEndpoint)
  | .username => some (·.username)
  | .password => some (·.password)
  | .bucket => some (·.bucket)
  | .name => some (·.name)
  | .idField => some (·.idField)
  | .separator => some (·.separator)
  | .redisAddress => some (·.redisAddress)
  | .redisPassword => some (·.redisPassword)
  | .consistency => some (·.consistency)
  | .logLevel => some (·.logLevel)
  | .redisDatabase | .paginateDefault | .paginateMax | .queryTimeout => none

/-! ## The environment -/

/-- What the program sees under a name is what the surroundings have under it, and only then what was added
from files. Adding never changes a variable that is there. -/
theorem environment_eq (w : Surroundings) (exports : Exports) (name : Text) :
    environment w exports name = (w.getVariable name).or (exports.lookup name) := by
  rw [environment]
  cases w.getVariable name <;> rfl

/-- Looking up a name in a file with one more variable at its front. The equation of the library decides by
`==`; the proofs here split on equality. -/
theorem lookup_cons_eq (entry : Text × Text) (vars : Dotenv.Variables) (name : Text) :
    List.lookup name (entry :: vars)
      = if name = entry.1 then some entry.2 else List.lookup name vars := by
  rw [List.lookup_cons]
  by_cases hname : name = entry.1
  · rw [if_pos hname, beq_iff_eq.mpr hname]
  · rw [if_neg hname, beq_false_of_ne hname]

/-- Variables that are added last are looked up last, so they count for a name only if nothing before them
defines it. -/
theorem environment_concat (w : Surroundings) (exports : Exports) (entry : Text × Text) (name : Text) :
    environment w (exports ++ [entry]) name
      = (environment w exports name).or (if name = entry.1 then some entry.2 else none) := by
  rw [environment_eq, environment_eq, List.lookup_append, Option.or_assoc, lookup_cons_eq,
    List.lookup_nil]

/-- What adding one variable does to a variable of that name: a value that is there stays, and else the new
one is added, unless it has a zero byte in it and cannot be. -/
theorem environment_addVariable_self (w : Surroundings) (exports : Exports) {name : Text}
    (hname : name ≠ []) (value : Text) :
    environment w (addVariable w exports (name, value)) name
      = (environment w exports name).or ((some value).filter (!·.contains 0)) := by
  rw [addVariable]
  by_cases hset : (environment w exports name).isSome
  · obtain ⟨old, hold⟩ := Option.isSome_iff_exists.mp hset
    rw [if_pos (by simp [hset]), hold]
    rfl
  · rw [Option.not_isSome_iff_eq_none] at hset
    by_cases hzero : 0 ∈ value
    · rw [if_pos (by simp [canExport, hzero]), hset]
      simp [Option.filter, hzero]
    · rw [if_neg (by simp [canExport, hset, hname, hzero]), environment_concat, hset]
      simp [Option.filter, hzero]

/-- Other variables are as before. -/
theorem environment_addVariable_of_ne (w : Surroundings) (exports : Exports) {entry : Text × Text}
    {name : Text} (hname : name ≠ entry.1) :
    environment w (addVariable w exports entry) name = environment w exports name := by
  rw [addVariable]
  split
  · rfl
  · rw [environment_concat, if_neg hname, Option.or_none]

/-- What a file defines is decided by the first entry with the name; an entry with a zero byte in its value
ends the search as well, and defines nothing. -/
theorem definition_cons (entry : Text × Text) (vars : Dotenv.Variables) (name : Text) :
    definition (entry :: vars) name
      = if name = entry.1 then (some entry.2).filter (!·.contains 0) else definition vars name := by
  rw [definition, lookup_cons_eq]
  by_cases hname : name = entry.1
  · rw [if_pos hname, if_pos hname]
  · rw [if_neg hname, if_neg hname, definition]

/-- A name that does not occur in a file is not defined by it. In the run over a file this disposes of the
part behind the entry in question. -/
theorem definition_of_not_mem {vars : Dotenv.Variables} {name : Text}
    (h : name ∉ vars.map Prod.fst) : definition vars name = none := by
  induction vars with
  | nil => rfl
  | cons entry vars ih =>
    rw [List.map_cons, List.mem_cons, not_or] at h
    rw [definition_cons, if_neg h.1, ih h.2]

/-- Adding the variables of a file keeps what is defined and takes up what is not. -/
theorem environment_foldl (w : Surroundings) {vars : Dotenv.Variables}
    (hvars : (vars.map Prod.fst).Nodup) {name : Text} (hname : name ≠ []) (exports : Exports) :
    environment w (vars.foldl (addVariable w) exports) name
      = (environment w exports name).or (definition vars name) := by
  induction vars generalizing exports with
  | nil => rw [List.foldl_nil, definition, List.lookup_nil, Option.filter_none, Option.or_none]
  | cons entry vars ih =>
    obtain ⟨key, value⟩ := entry
    rw [List.map_cons, List.nodup_cons] at hvars
    rw [List.foldl_cons, ih hvars.2, definition_cons]
    by_cases hkey : name = key
    · -- a name that comes once is not defined by the rest of the file
      rw [← hkey] at hvars ⊢
      rw [environment_addVariable_self w exports hname, definition_of_not_mem hvars.1, Option.or_none,
        if_pos rfl]
    · rw [environment_addVariable_of_ne w exports hkey, if_neg hkey]

/-- The variables of one file after the other: a file that is absent adds none, and one that is there adds
those that it defines. The other files come after it. -/
theorem addFiles_cons {w : Surroundings} {file : Text} {vars : Dotenv.Variables}
    (h : HasVariables w file vars) (exports : Exports) (rest : List Text) :
    addFiles w exports (file :: rest) = addFiles w (vars.foldl (addVariable w) exports) rest := by
  rw [addFiles]
  cases h with
  | absent hread => rw [hread, List.foldl_nil]
  | present hread hparse =>
    rw [hread]
    dsimp only
    rw [hparse]

/-- The variables of a source have distinct names, whether the file is there or not, so the order in which
they are added makes no difference to any one of them. -/
theorem HasVariables.nodup {w : Surroundings} {file : Text} {vars : Dotenv.Variables}
    (h : HasVariables w file vars) : (vars.map Prod.fst).Nodup := by
  cases h with
  | absent hread => exact List.nodup_nil
  | present hread hparse => exact Dotenv.nodup_parse hparse

/-- The variable of a key has a name, because all of them begin with the same letters. A variable without a
name cannot be exported, so this is a condition of the lemmas on adding. -/
theorem variableName_ne_nil (k : Key) : k.variableName ≠ [] := List.cons_ne_nil _ _

/-- The environment with the variables of both files gives the first definition that there is: of the
process, of the local file, and of the shared one, in this order. -/
theorem addFiles_layers {reader : Reader} {w : Surroundings} {path : Text} (s : Sources reader w path) :
    ∃ exports, addFiles w [] variableFiles = (exports, .ok ()) ∧
      ∀ k : Key, environment w exports k.variableName = firstOf (s.definitions k) := by
  refine ⟨s.sharedVariables.foldl (addVariable w) (s.localVariables.foldl (addVariable w) []), ?_, ?_⟩
  · rw [variableFiles, addFiles_cons s.hasLocal, addFiles_cons s.hasShared]
    rfl
  · intro k
    -- names of settings are not empty, so adding them is not refused for that
    have hname := variableName_ne_nil k
    rw [environment_foldl w s.hasShared.nodup hname, environment_foldl w s.hasLocal.nodup hname]
    rw [environment_eq, List.lookup_nil, Option.or_none, firstOf, Sources.definitions]
    cases w.getVariable k.variableName with
    | some t => rfl
    | none =>
      cases definition s.localVariables k.variableName with
      | some t => rfl
      | none => cases definition s.sharedVariables k.variableName <;> rfl

/-! ## Settings -/

/-- A setting that is a text is the value of its key as a text. Stated once for all such keys, so that the
main result need not go through them. -/
theorem text_ofSources {k : Key} {get : Settings → Text} (hk : k.text? = some get)
    (env : Text → Option Text) (table : Table) :
    get (ofSources env table) = asText (value env table k) := by
  cases k <;> cases hk <;> rfl

/-- A variable with something in it decides: the value of its key is this text, whatever the file of
settings has and whatever the default is. -/
theorem value_of_variable {env : Text → Option Text} {k : Key} {t : Text}
    (henv : env k.variableName = some t) (ht : t ≠ []) (table : Table) :
    value env table k = .text t := by
  obtain ⟨b, rest, rfl⟩ := List.exists_cons_of_ne_nil ht
  rw [value, henv]

/-- Without a variable, or with an empty one, the file of settings decides, and the default if the file has
nothing or only null under the key. The two cases meet here and nowhere else: an empty variable counts as
none. -/
theorem value_of_table {env : Text → Option Text} {k : Key} {table : Table}
    (henv : ∀ t, env k.variableName = some t → t = []) :
    value env table k = ((table.lookup k.word).filter (!·.isNull)).getD k.default := by
  have hempty : env k.variableName = none ∨ env k.variableName = some [] := by
    cases h : env k.variableName with
    | none => exact .inl rfl
    | some t => exact .inr (congrArg some (henv t h))
  rw [value]
  rcases hempty with h | h
  all_goals
    rw [h]
    dsimp only
    cases table.lookup k.word with
    | none => rfl
    | some v => cases v <;> rfl

/-- Loading from sources that can be understood succeeds, with the first definition of every
variable. -/
theorem load_of_sources {reader : Reader} {w : Surroundings} {path : Text} (s : Sources reader w path) :
    ∃ env, (loadWith reader w path).outcome = .ok (ofSources env s.table) ∧
      ∀ k : Key, env k.variableName = firstOf (s.definitions k) := by
  obtain ⟨exports, hfiles, henv⟩ := addFiles_layers s
  refine ⟨environment w exports, ?_, henv⟩
  rw [loadWith, s.hasTable]
  dsimp only
  rw [hfiles]

/-- The first definition among the strongest sources is the first of all. This is why a change in a weaker
source cannot be seen. -/
theorem firstOf_of_take {definitions : List (Option Text)} {n : Nat} {t : Text}
    (h : firstOf (definitions.take n) = some t) : firstOf definitions = some t := by
  unfold firstOf at h ⊢
  rw [← List.take_append_drop n definitions, List.findSome?_append, h]
  rfl

/-- **Where a text setting comes from.** However the file of settings is read, loading succeeds, and the
setting is the first definition of its variable in the environment, the local and the shared file, unless
this is empty; else what the file of settings has for its key, unless this is nothing; else the default. A
definition in a file does not count if its value has a zero byte. If the strongest `n` of the sources of
variables define the variable as something, then nothing behind them matters: all sources that agree in
these give the same setting. -/
theorem load_precedence {reader : Reader} {w : Surroundings} {path : Text} (s : Sources reader w path) :
    ∃ settings, (loadWith reader w path).outcome = .ok settings ∧
      ∀ k get, k.text? = some get →
        (∀ t, firstOf (s.definitions k) = some t → t ≠ [] → get settings = t) ∧
        ((∀ t, firstOf (s.definitions k) = some t → t = []) →
          (∀ v, s.table.lookup k.word = some v → v ≠ .null → get settings = asText v) ∧
          ((∀ v, s.table.lookup k.word = some v → v = .null) → get settings = asText k.default)) ∧
        ∀ n t, firstOf ((s.definitions k).take n) = some t → t ≠ [] →
          ∀ (reader' : Reader) (w' : Surroundings) (path' : Text) (s' : Sources reader' w' path')
            (settings' : Settings), (loadWith reader' w' path').outcome = .ok settings' →
            (s'.definitions k).take n = (s.definitions k).take n → get settings' = get settings := by
  obtain ⟨env, hload, henv⟩ := load_of_sources s
  refine ⟨_, hload, ?_⟩
  intro k get hk
  rw [text_ofSources hk]
  refine ⟨?_, ?_, ?_⟩
  · intro t hfirst ht
    -- a definition that is not empty is what the environment gives
    rw [← henv] at hfirst
    rw [value_of_variable hfirst ht]
    rfl
  · intro hempty
    rw [← henv] at hempty
    -- no definition, or an empty one, leaves the key to the file of settings and to the default
    rw [value_of_table hempty]
    constructor
    · intro v hv hnull
      rw [hv]
      cases v with
      | null => exact absurd rfl hnull
      | _ => rfl
    · intro hnone
      cases hv : s.table.lookup k.word with
      | none => rfl
      | some v => rw [hnone v hv]; rfl
  · intro n t hfirst ht reader' w' path' s' settings' hload' hsame
    -- both loads find the same first definition, so they agree without a look at what is behind it
    obtain ⟨env', hload'', henv'⟩ := load_of_sources s'
    obtain rfl := Except.ok.inj (hload'.symm.trans hload'')
    have hdefined := firstOf_of_take hfirst
    rw [← hsame] at hfirst
    have hdefined' := firstOf_of_take hfirst
    rw [← henv] at hdefined
    rw [← henv'] at hdefined'
    rw [text_ofSources hk, value_of_variable hdefined ht, value_of_variable hdefined' ht]

/-! ## Sources in memory -/

/-- The variables of a file as far as it can be understood. -/
def variablesIn (w : Surroundings) (file : Text) : Dotenv.Variables :=
  ((w.read file).toOption.bind fun t => (Dotenv.parse t).toOption).getD []

/-- Whether a file that is there is one of variables. -/
def hasVariables (w : Surroundings) (file : Text) : Bool :=
  (w.read file).toOption.all fun t => (Dotenv.parse t).toOption.isSome

/-- The Boolean test of a file is sound: a file that passes it is a source, with the variables that were
read from it. It lets concrete surroundings be checked by evaluation. -/
theorem hasVariables_variablesIn {w : Surroundings} {file : Text} (h : hasVariables w file) :
    HasVariables w file (variablesIn w file) := by
  unfold hasVariables at h
  unfold variablesIn
  cases hread : w.read file with
  | error why => exact .absent hread
  | ok t =>
    rw [hread] at h
    cases hparse : Dotenv.parse t with
    | error e =>
      have hnone : (Dotenv.parse t).toOption.isSome := h
      rw [hparse] at hnone
      cases hnone
    | ok vars => exact .present hread (by simp [Except.toOption, hparse])

/-- The sources in given surroundings, if a look at them shows that they can be understood. -/
def Sources.ofFiles {reader : Reader} {w : Surroundings} {path : Text}
    (h : (fileTable reader w path).toOption.isSome ∧ hasVariables w ".env.local" ∧ hasVariables w ".env") :
    Sources reader w path where
  table := (fileTable reader w path).toOption.getD []
  localVariables := variablesIn w ".env.local"
  sharedVariables := variablesIn w ".env"
  hasTable := by
    have htable := h.1
    cases hread : fileTable reader w path with
    | error e =>
      rw [hread] at htable
      cases htable
    | ok table => rfl
  hasLocal := hasVariables_variablesIn h.2.1
  hasShared := hasVariables_variablesIn h.2.2

/-- A bucket that is empty in the local file, so that the shared file does not count and the file of
settings has the last word; a name that the shared file and the file of settings have. -/
def layered : Surroundings :=
  FileTree.surroundings (FileTree.ofList
    [(".env.local", "DOCQUERY_BUCKET="), (".env", "DOCQUERY_BUCKET=spare\nDOCQUERY_NAME=room"),
      ("/travel.yaml", "bucket: travel\nname: other\n")]) []

/-- The sources in these surroundings. -/
def layeredSources : Sources (readTable layered.getVariable) layered "/travel.yaml" :=
  .ofFiles (by decide +kernel)

/-- A bucket with a zero byte in the local file, and another one in the shared file. -/
def zeroByte : Surroundings :=
  FileTree.surroundings (FileTree.ofList
    [(".env.local", "DOCQUERY_BUCKET=a\x00b"), (".env", "DOCQUERY_BUCKET=c")]) []

/-- The sources in these surroundings. -/
def zeroByteSources : Sources (readTable zeroByte.getVariable) zeroByte [] := .ofFiles (by decide +kernel)

/-- In the first surroundings the bucket is the one in the file of settings, the name the one in the shared
file, and the separator the default. In the second the local file is the first to define the bucket, and
not as empty; but what it says cannot be brought into the environment, and the bucket is that of the shared
file. -/
theorem layered_precedence :
    (∃ settings, (load layered "/travel.yaml").outcome = .ok settings ∧
      settings.bucket = Text.ofString "travel" ∧ settings.name = Text.ofString "room" ∧
      settings.separator = Text.ofString "::") ∧
    zeroByteSources.localVariables.lookup Key.bucket.variableName = some (Text.ofString "a\x00b") ∧
      ∃ settings, (load zeroByte []).outcome = .ok settings ∧ settings.bucket = Text.ofString "c" := by
  refine ⟨?_, by decide +kernel, ?_⟩
  · obtain ⟨settings, hload, hsettings⟩ := load_precedence layeredSources
    refine ⟨settings, hload, ?_, ?_, ?_⟩
    -- the variable is defined as empty, and the file of settings decides
    · have hempty : firstOf (layeredSources.definitions .bucket) = some [] := by decide +kernel
      have htext : (layeredSources.table.lookup Key.bucket.word).map asText = some (Text.ofString "travel") := by
        decide +kernel
      obtain ⟨v, hv, hvtext⟩ := Option.map_eq_some_iff.mp htext
      have hnull : v ≠ .null := by
        rintro rfl
        exact absurd hvtext (by decide)
      have hdefined : ∀ t, firstOf (layeredSources.definitions .bucket) = some t → t = [] := by
        intro t ht
        exact Option.some.inj (ht.symm.trans hempty)
      rw [← hvtext]
      exact ((hsettings .bucket _ rfl).2.1 hdefined).1 v hv hnull
    · exact (hsettings .name _ rfl).1 _ (by decide +kernel) (by decide)
    · have hnone : firstOf (layeredSources.definitions .separator) = none := by decide +kernel
      have hentry : layeredSources.table.lookup Key.separator.word = none :=
        Option.isNone_iff_eq_none.mp (by decide +kernel)
      exact ((hsettings .separator _ rfl).2.1 (by simp [hnone])).2 (by simp [hentry])
  · obtain ⟨settings, hload, hsettings⟩ := load_precedence zeroByteSources
    exact ⟨settings, hload, (hsettings .bucket _ rfl).1 _ (by decide +kernel) (by decide)⟩

end Settings
end DocFilter
