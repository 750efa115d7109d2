import LdkSample.Args.Parse

/-!
# The `.env` file

`parse_env_file` refuses exactly the contents with a line that has no `=`, and otherwise gives
every key the value of its last line (`env_file_exact`). A list of pairs that is written with one
line for each is read back as the map in which the last pair of a key wins.
-/

namespace LdkSample

namespace Args

/-! ## One line -/

abbrev Entry := Sigma fun _ : String => String

/-- A pair as a line. -/
def Entry.line (entry : Entry) : List Char := entry.1.toList ++ '=' :: entry.2.toList

/-- The pair of a line. -/
def lineEntry (line : List Char) : Option Entry :=
  match splitFirst '=' line with
  | (key, some value) => some ⟨String.ofList key, String.ofList value⟩
  | (_, none) => none

theorem lineEntry_eq_some {line : List Char} {entry : Entry} :
    lineEntry line = some entry ↔ line = entry.line ∧ '=' ∉ entry.1.toList := by
  unfold lineEntry
  constructor
  · intro h
    split at h
    · next key value hsplit =>
      cases h
      obtain ⟨rfl, hkey⟩ := splitFirst_eq_some.mp hsplit
      unfold Entry.line
      rw [String.toList_ofList, String.toList_ofList]
      exact ⟨rfl, hkey⟩
    · cases h
  · rintro ⟨rfl, hkey⟩
    unfold Entry.line
    rw [splitFirst_append hkey]
    dsimp only
    rw [String.ofList_toList, String.ofList_toList]

theorem lineEntry_eq_none {line : List Char} : lineEntry line = none ↔ '=' ∉ line := by
  unfold lineEntry
  constructor
  · intro h
    split at h
    · cases h
    · next hsplit => exact (splitFirst_eq_none.mp hsplit).2
  · intro h
    rw [splitFirst_of_not_mem h]

/-! ## The loop -/

theorem envFileLoop_ok {ls : List (List Char)} (h : ∀ line ∈ ls, '=' ∈ line)
    (m : HashMap String String) (out : List String) :
    (envFileLoop m ls).exec out = some (.ok (insertAll (ls.filterMap lineEntry) m), out) := by
  induction ls generalizing m with
  | nil => rfl
  | cons line ls ih =>
    rw [List.forall_mem_cons] at h
    obtain ⟨entry, hentry⟩ : ∃ entry, lineEntry line = some entry :=
      Option.ne_none_iff_exists'.mp fun hnone => lineEntry_eq_none.mp hnone h.1
    obtain ⟨rfl, hkey⟩ := lineEntry_eq_some.mp hentry
    rw [List.filterMap_cons_some hentry]
    unfold envFileLoop Entry.line
    rw [splitFirst_append hkey]
    dsimp only
    rw [ih h.2, String.ofList_toList, String.ofList_toList]
    rfl

theorem envFileLoop_error {ls : List (List Char)} (h : ∃ line ∈ ls, '=' ∉ line)
    (m : HashMap String String) (out : List String) :
    (envFileLoop m ls).exec out = some (.error (), out ++ ["ERROR: bad .env file format"]) := by
  induction ls generalizing m with
  | nil =>
    obtain ⟨line, hline, -⟩ := h
    cases hline
  | cons line ls ih =>
    unfold envFileLoop
    split
    · next key value hsplit =>
      refine ih ?_ _
      obtain ⟨bad, hbad, hno⟩ := h
      rcases List.mem_cons.mp hbad with rfl | hbad
      · obtain ⟨rfl, -⟩ := splitFirst_eq_some.mp hsplit
        exact absurd (List.mem_append_right _ List.mem_cons_self) hno
      · exact ⟨bad, hbad, hno⟩
    · rfl

/-! ## The last line of a key -/

/-- `line` gives `key` a value. -/
def HasKey (line : List Char) (key : String) : Prop :=
  '=' ∉ key.toList ∧ ∃ value : String, line = Entry.line ⟨key, value⟩

/-- In its last line `key` has `value`. -/
def LastValue (ls : List (List Char)) (key value : String) : Prop :=
  '=' ∉ key.toList ∧ ∃ before after, ls = before ++ Entry.line ⟨key, value⟩ :: after ∧
    ∀ line ∈ after, ¬ HasKey line key

theorem hasKey_iff {line : List Char} {key : String} :
    HasKey line key ↔ ∃ value, lineEntry line = some ⟨key, value⟩ := by
  constructor
  · rintro ⟨hkey, value, rfl⟩
    exact ⟨value, lineEntry_eq_some.mpr ⟨rfl, hkey⟩⟩
  · rintro ⟨value, h⟩
    obtain ⟨rfl, hkey⟩ := lineEntry_eq_some.mp h
    exact ⟨hkey, value, rfl⟩

theorem mem_keys_filterMap {ls : List (List Char)} {key : String} :
    key ∈ (ls.filterMap lineEntry).keys ↔ ∃ line ∈ ls, HasKey line key := by
  simp only [List.mem_keys, List.mem_filterMap, hasKey_iff]
  constructor
  · rintro ⟨value, line, hline, h⟩
    exact ⟨line, hline, value, h⟩
  · rintro ⟨line, hline, value, h⟩
    exact ⟨value, line, hline, h⟩

theorem lastValue_concat {ls : List (List Char)} {line : List Char} {key value : String} :
    LastValue (ls ++ [line]) key value ↔
      lineEntry line = some ⟨key, value⟩ ∨ ¬ HasKey line key ∧ LastValue ls key value := by
  constructor
  · rintro ⟨hkey, before, after, heq, hafter⟩
    rcases List.eq_nil_or_concat after with rfl | ⟨init, last, rfl⟩
    · obtain ⟨-, hline⟩ := List.append_inj' heq rfl
      cases hline
      exact .inl (lineEntry_eq_some.mpr ⟨rfl, hkey⟩)
    · rw [List.concat_eq_append] at heq hafter
      rw [← List.cons_append, ← List.append_assoc] at heq
      obtain ⟨rfl, hline⟩ := List.append_inj' heq rfl
      cases hline
      refine .inr ⟨hafter _ (List.mem_append_right _ List.mem_cons_self), hkey, before, init, rfl, ?_⟩
      exact fun l hl => hafter l (List.mem_append_left _ hl)
  · rintro (h | ⟨hno, hkey, before, after, rfl, hafter⟩)
    · obtain ⟨rfl, hkey⟩ := lineEntry_eq_some.mp h
      exact ⟨hkey, ls, [], rfl, fun _ hl => (nomatch hl)⟩
    · refine ⟨hkey, before, after ++ [line], by simp, fun l hl => ?_⟩
      rcases List.mem_append.mp hl with hl | hl
      · exact hafter l hl
      · rw [List.mem_singleton.mp hl]
        exact hno

theorem dlookup_reverse_filterMap {ls : List (List Char)} {key value : String} :
    (ls.filterMap lineEntry).reverse.dlookup key = some value ↔ LastValue ls key value := by
  induction ls using List.reverseRecOn with
  | nil =>
    constructor
    · intro h
      cases h
    · rintro ⟨-, before, after, h, -⟩
      cases before <;> cases h
  | append_singleton ls line ih =>
    rw [lastValue_concat, ← ih, List.filterMap_append, List.reverse_append, hasKey_iff]
    cases hentry : lineEntry line with
    | none => simp [hentry]
    | some entry =>
      obtain ⟨key', value'⟩ := entry
      rw [List.filterMap_cons_some hentry]
      by_cases hk : key = key'
      · subst hk
        simp
      · have hne : List.dlookup key (⟨key', value'⟩ :: (ls.filterMap lineEntry).reverse) =
            List.dlookup key (ls.filterMap lineEntry).reverse := List.dlookup_cons_ne _ _ hk
        simp [hne, Ne.symm hk]

/-! ## The whole file -/

/-- One line for each pair. -/
def renderEnvFile (entries : List Entry) : List Char := entries.flatMap fun entry => entry.line ++ ['\n']

/-- The pair can be written as a line. -/
structure Entry.Plain (entry : Entry) : Prop where
  key : '=' ∉ entry.1.toList ∧ '\n' ∉ entry.1.toList
  value : '\n' ∉ entry.2.toList ∧ entry.2.toList.getLast? ≠ some '\r'

theorem lines_renderEnvFile {entries : List Entry} (h : ∀ entry ∈ entries, entry.Plain) :
    lines (renderEnvFile entries) = entries.map Entry.line := by
  have hflat : renderEnvFile entries = (entries.map Entry.line).flatMap (· ++ ['\n']) := by
    unfold renderEnvFile
    rw [List.flatMap_map]
  rw [hflat]
  refine lines_flatMap fun l hl => ?_
  obtain ⟨entry, hentry, rfl⟩ := List.mem_map.mp hl
  obtain ⟨⟨-, hkey⟩, hvalue, hcr⟩ := h entry hentry
  unfold Entry.line
  refine ⟨by simp [hkey, hvalue], ?_⟩
  rw [List.getLast?_append, List.getLast?_cons]
  cases hlast : entry.2.toList.getLast? with
  | none => simp
  | some c =>
    rw [hlast] at hcr
    simpa using hcr

theorem filterMap_line {entries : List Entry} (h : ∀ entry ∈ entries, entry.Plain) :
    (entries.map Entry.line).filterMap lineEntry = entries := by
  induction entries with
  | nil => rfl
  | cons entry entries ih =>
    rw [List.forall_mem_cons] at h
    rw [List.map_cons, List.filterMap_cons_some (lineEntry_eq_some.mpr ⟨rfl, h.1.key.1⟩), ih h.2]

/-- What `parse_env_file` makes of the lines. -/
theorem parseEnvFile_exec {e : Env} {name : Option String} {content : String}
    (hfile : e.file (name.getD ".env") = some content) (out : List String) :
    (parseEnvFile e name).exec out = (envFileLoop ∅ (lines content.toList)).exec out := by
  unfold parseEnvFile
  rw [hfile]

/-- What the parser is to make of a text. -/
structure ReadExactly (text : List Char) (result : Except Unit (HashMap String String)) : Prop where
  refuses : result = .error () ↔ ∃ line ∈ lines text, '=' ∉ line
  keys : ∀ m, result = .ok m → ∀ key, key ∈ m ↔ ∃ line ∈ lines text, HasKey line key
  values : ∀ m, result = .ok m → ∀ key value,
    m.lookup key = some value ↔ LastValue (lines text) key value
  roundTrip : ∀ entries : List Entry, (∀ entry ∈ entries, entry.Plain) →
    text = renderEnvFile entries →
    ∃ m, result = .ok m ∧ ∀ key, m.lookup key = entries.reverse.dlookup key

theorem readExactly_error {text : List Char} (h : ∃ line ∈ lines text, '=' ∉ line) :
    ReadExactly text (.error ()) where
  refuses := ⟨fun _ => h, fun _ => rfl⟩
  keys _ hm := nomatch hm
  values _ hm := nomatch hm
  roundTrip entries hplain htext := by
    obtain ⟨line, hline, hno⟩ := h
    rw [htext, lines_renderEnvFile hplain] at hline
    obtain ⟨entry, -, rfl⟩ := List.mem_map.mp hline
    exact absurd (List.mem_append_right _ List.mem_cons_self) hno

theorem readExactly_ok {text : List Char} (h : ∀ line ∈ lines text, '=' ∈ line) :
    ReadExactly text (.ok (insertAll ((lines text).filterMap lineEntry) ∅)) := by
  have hlookup : ∀ key, (insertAll ((lines text).filterMap lineEntry) ∅).lookup key =
      ((lines text).filterMap lineEntry).reverse.dlookup key := by
    intro key
    rw [lookup_insertAll_reverse, AList.lookup_empty, Option.or_none]
  refine ⟨⟨fun hm => (nomatch hm), ?_⟩, ?_, ?_, ?_⟩
  · rintro ⟨line, hline, hno⟩
    exact absurd (h line hline) hno
  · rintro m hm key
    cases hm
    rw [← AList.lookup_isSome, hlookup, List.dlookup_isSome, ← mem_keys_filterMap]
    simp [List.keys]
  · rintro m hm key value
    cases hm
    rw [hlookup, dlookup_reverse_filterMap]
  · intro entries hplain htext
    refine ⟨_, rfl, fun key => ?_⟩
    rw [hlookup, htext, lines_renderEnvFile hplain, filterMap_line hplain]

/-- **The `.env` parser is exact**: it fails on a line without `=` and on nothing else, each key
has the value of its last line, and what is written with one line for each pair is read back. -/
theorem env_file_exact {e : Env} {name : Option String} {content : String}
    (hfile : e.file (name.getD ".env") = some content) (out : List String) :
    ∃ result out', (parseEnvFile e name).exec out = some (result, out') ∧
      ReadExactly content.toList result := by
  rw [parseEnvFile_exec hfile]
  by_cases hbad : ∃ line ∈ lines content.toList, '=' ∉ line
  · exact ⟨_, _, envFileLoop_error hbad ∅ out, readExactly_error hbad⟩
  · have hall : ∀ line ∈ lines content.toList, '=' ∈ line := by
      intro line hline
      by_contra hno
      exact hbad ⟨line, hline, hno⟩
    exact ⟨_, _, envFileLoop_ok hall ∅ out, readExactly_ok hall⟩

section Examples

/-- A process that finds only a `.env` file. -/
def onlyEnvFile (content : String) : Env where
  args := []
  var _ := none
  homeDir := none
  file name := if name = ".env" then some content else none

end Examples

/-- The good file of the tests. -/
theorem env_file_exact_testFile :
    ∃ result out', (parseEnvFile (onlyEnvFile "RPC_USER=testuser\nRPC_PASSWORD=testpassword")
        none).exec [] = some (result, out') ∧
      ReadExactly "RPC_USER=testuser\nRPC_PASSWORD=testpassword".toList result :=
  env_file_exact rfl []

end Args

end LdkSample
