import RagPipeline.Lib.FindSub
import RagPipeline.Config.Models

namespace RagPipeline

def isLowerAscii (c : Char) : Bool := 'a' ≤ c && c ≤ 'z'

def isWordAscii (c : Char) : Bool := isLowerAscii c || ('0' ≤ c && c ≤ '9') || c = '_'

/-- `re.match(r"^[a-z][a-z0-9_]*$", v)`: the `$` also matches before a final newline. -/
def matchesLibraryIdPattern : List Char → Bool
  | [] => false
  | c :: cs =>
    isLowerAscii c && (if cs.getLast? = some '\n' then cs.dropLast else cs).all isWordAscii

def validateLibraryId (v : String) : Except String String :=
  if matchesLibraryIdPattern v.toList then .ok v
  else .error "library_id must start with '[a-z]' and contain only '[a-z0-9_]'"

theorem validateLibraryId_main : validateLibraryId "main" = .ok "main" := by
  decide

def postgresMaxIdentifierLength : ℕ := 63

def truncateIdentifier (name : String) : String :=
  if name.length ≤ postgresMaxIdentifierLength then name
  else String.ofList (name.toList.take postgresMaxIdentifierLength)

/-- `str.lower` on the ASCII names of models and task types. -/
def asciiLower (s : String) : String := String.ofList (s.toList.map Char.toLower)

/-- The relation that a table name resolves to once a repository has lower-cased it. -/
@[irreducible] def relation (tableName : String) : String :=
  truncateIdentifier (asciiLower tableName)

theorem toLower_idem (c : Char) : c.toLower.toLower = c.toLower := by
  unfold Char.toLower
  split
  · rw [dif_neg]
    grind [UInt32.toNat_add, Char.toNat_val]
  · rfl

theorem asciiLower_idem (s : String) : asciiLower (asciiLower s) = asciiLower s := by
  have h : Char.toLower ∘ Char.toLower = Char.toLower := by
    funext c
    exact toLower_idem c
  simp [asciiLower, h]

@[simp] theorem relation_asciiLower (s : String) : relation (asciiLower s) = relation s := by
  simp only [relation, asciiLower_idem]

def sanitizeModelName (model : String) : String :=
  String.ofList ((asciiLower model).toList.map fun c =>
    if c = '/' ∨ c = '-' ∨ c = '.' then '_' else c)

def chunksMarker : String := "_chunks_"

def chunkTableSuffix (taskType model : String) : String :=
  taskType ++ "_" ++ sanitizeModelName model

def buildChunkTableName (postTable taskType model : String) : String :=
  truncateIdentifier
    (postTable ++ chunksMarker ++ chunkTableSuffix (asciiLower taskType) model)

abbrev SuffixMap := OrderedDict String (String × EmbedConfig)

def buildChunkTableSuffixMap (configs : EmbedConfigs) : SuffixMap :=
  OrderedDict.ofList (configs.entries.map fun e =>
    (chunkTableSuffix e.1 e.2.primary, (e.1, e.2)))

/-- Tries the suffixes in the order of the map on what precedes the first marker. -/
def parseChunkTableName (tableName : String) (suffixMap : SuffixMap) :
    Option (String × String × EmbedConfig) :=
  match findSub chunksMarker.toList tableName.toList with
  | none => none
  | some idx =>
    let postTable := String.ofList (tableName.toList.take idx)
    (suffixMap.entries.find? fun e =>
      truncateIdentifier (postTable ++ chunksMarker ++ e.1) = tableName).map
        fun e => (postTable, e.2)

theorem toList_truncateIdentifier (name : String) :
    (truncateIdentifier name).toList = name.toList.take postgresMaxIdentifierLength := by
  unfold truncateIdentifier
  split_ifs with h
  · rw [List.take_of_length_le]
    rwa [String.length_toList]
  · exact String.toList_ofList

example : buildChunkTableName "posts_main" "body" bgeBaseEmbedCfg.primary =
    "posts_main_chunks_body_baai_bge_base_en_v1_5" := by decide +kernel

section RoundTrip

variable {p s : String}

theorem toList_chunksMarker :
    chunksMarker.toList = '_' :: (['c', 'h', 'u', 'n', 'k', 's'] ++ ['_']) := rfl

theorem toList_chunkTable (p s : String) :
    (truncateIdentifier (p ++ chunksMarker ++ s)).toList =
      (p.toList ++ chunksMarker.toList ++ s.toList).take 63 := by
  rw [toList_truncateIdentifier, String.toList_append, String.toList_append]
  rfl

/-- A post table name of up to 55 characters leaves room for the marker and the first characters
of the suffix. -/
theorem toList_chunkTable_of_le (hp : p.length ≤ 55) (s : String) :
    (truncateIdentifier (p ++ chunksMarker ++ s)).toList =
      p.toList ++ chunksMarker.toList ++ s.toList.take (55 - p.length) := by
  have hm : (p.toList ++ chunksMarker.toList).length = p.length + 8 := by
    rw [List.length_append, String.length_toList]
    rfl
  rw [toList_chunkTable, List.take_append, hm, List.take_of_length_le (by omega)]
  congr 2
  omega

theorem findSub_chunkTable (p s : String) :
    findSub chunksMarker.toList (truncateIdentifier (p ++ chunksMarker ++ s)).toList =
        some p.length ↔
      ¬ chunksMarker.toList <:+: p.toList ++ ['_'] ∧ p.length ≤ 55 := by
  by_cases hp : p.length ≤ 55
  · rw [toList_chunkTable_of_le hp, and_iff_left hp, toList_chunksMarker,
      ← String.length_toList]
    exact findSub_marker (by decide) p.toList _
  · refine iff_of_false (fun h => ?_) fun h => hp h.2
    have hlen := (findSub_eq_some.mp h).2.1.length_le
    rw [toList_chunkTable, List.length_drop, List.length_take] at hlen
    have h8 : chunksMarker.toList.length = 8 := rfl
    omega

theorem take_chunkTable (hp : p.length ≤ 55) (s : String) :
    String.ofList ((truncateIdentifier (p ++ chunksMarker ++ s)).toList.take p.length) = p := by
  rw [toList_chunkTable_of_le hp, List.append_assoc, ← String.length_toList, List.take_left,
    String.ofList_toList]

theorem chunkTable_inj (hp : p.length ≤ 55) (s t : String) :
    truncateIdentifier (p ++ chunksMarker ++ s) = truncateIdentifier (p ++ chunksMarker ++ t) ↔
      s.toList.take (55 - p.length) = t.toList.take (55 - p.length) := by
  rw [← String.toList_inj, toList_chunkTable_of_le hp, toList_chunkTable_of_le hp,
    List.append_cancel_left_eq]

/-- Suffixes that differ in their first character are told apart by any prefix. -/
theorem find?_take_eq {β : Type} {l : List (String × β)}
    (hl : (l.map fun e => e.1.toList.head?).Nodup) {e : String × β} (he : e ∈ l) {n : ℕ}
    (hn : n ≠ 0) : l.find? (fun x => x.1.toList.take n = e.1.toList.take n) = some e := by
  have hex : ∃ x, l.find? (fun x => x.1.toList.take n = e.1.toList.take n) = some x :=
    Option.isSome_iff_exists.mp (List.find?_isSome.mpr ⟨e, he, by simp⟩)
  obtain ⟨x, hx⟩ := hex
  have htake : x.1.toList.take n = e.1.toList.take n := by simpa using List.find?_some hx
  have hhead := congrArg List.head? htake
  rw [List.head?_take, List.head?_take, if_neg hn, if_neg hn] at hhead
  rw [hx, List.inj_on_of_nodup_map hl (List.mem_of_find?_eq_some hx) he hhead]

theorem parseChunkTableName_eq_some {m : SuffixMap} {tableName pt : String}
    {v : String × EmbedConfig} :
    parseChunkTableName tableName m = some (pt, v) ↔
      ∃ idx, findSub chunksMarker.toList tableName.toList = some idx ∧
        String.ofList (tableName.toList.take idx) = pt ∧
        (m.entries.find? fun e =>
          truncateIdentifier (pt ++ chunksMarker ++ e.1) = tableName).map Prod.snd = some v := by
  unfold parseChunkTableName
  cases findSub chunksMarker.toList tableName.toList with
  | none => simp
  | some idx =>
    simp only [Option.map_eq_some_iff, Prod.mk.injEq, Option.some.injEq, exists_eq_left']
    constructor
    · rintro ⟨e, he, rfl, hv⟩
      exact ⟨rfl, e, he, hv⟩
    · rintro ⟨rfl, e, he, hv⟩
      exact ⟨e, he, rfl, hv⟩

/-- What `parse_chunk_table_name` makes of a name built from `p`. -/
theorem parseChunkTableName_build {m : SuffixMap} {v : String × EmbedConfig} :
    parseChunkTableName (truncateIdentifier (p ++ chunksMarker ++ s)) m = some (p, v) ↔
      (¬ chunksMarker.toList <:+: p.toList ++ ['_'] ∧ p.length ≤ 55) ∧
        (m.entries.find? fun e => e.1.toList.take (55 - p.length) =
          s.toList.take (55 - p.length)).map Prod.snd = some v := by
  rw [parseChunkTableName_eq_some]
  constructor
  · -- the post table that is read off fixes where the marker was found
    rintro ⟨idx, hidx, htake, hfind⟩
    have hlen : idx = p.length := by
      have h := congrArg String.length htake
      rwa [String.length_ofList, List.length_take,
        Nat.min_eq_left (findSub_eq_some.mp hidx).1] at h
    rw [hlen, findSub_chunkTable] at hidx
    refine ⟨hidx, ?_⟩
    simpa only [chunkTable_inj hidx.2] using hfind
  · rintro ⟨hp, hfind⟩
    refine ⟨p.length, (findSub_chunkTable p s).mpr hp, take_chunkTable hp.2 s, ?_⟩
    simpa only [chunkTable_inj hp.2] using hfind

theorem entries_suffixMap :
    (buildChunkTableSuffixMap embedConfigs).entries =
      embedConfigs.entries.map fun e => (chunkTableSuffix e.1 e.2.primary, e) :=
  OrderedDict.entries_ofList (by decide)

/-- A configured chunk table is parsed back exactly when the marker does not occur earlier in its
name and truncation leaves a character that tells the task types apart. -/
theorem parse_build_chunk_table_iff {taskType : String} {cfg : EmbedConfig}
    (he : (taskType, cfg) ∈ embedConfigs.entries) (libraryId : String) :
    parseChunkTableName (buildChunkTableName ("posts_" ++ libraryId) taskType cfg.primary)
        (buildChunkTableSuffixMap embedConfigs) = some ("posts_" ++ libraryId, taskType, cfg) ↔
      ¬ chunksMarker.toList <:+: ("posts_" ++ libraryId ++ "_").toList ∧
        (libraryId.length ≤ 48 ∨ libraryId.length = 49 ∧ taskType = "body") := by
  have hlower : asciiLower taskType = taskType := by
    have h : ∀ e ∈ embedConfigs.entries, asciiLower e.1 = e.1 := by decide
    exact h (taskType, cfg) he
  have hlen : ("posts_" ++ libraryId).length = 6 + libraryId.length :=
    String.length_append ..
  rw [buildChunkTableName, hlower, parseChunkTableName_build, entries_suffixMap, hlen,
    String.toList_append (s := "posts_" ++ libraryId), and_assoc]
  refine and_congr_right fun _ => ?_
  -- at 49 characters nothing of the suffix is left, and the first of the map is taken
  rcases Nat.lt_trichotomy libraryId.length 49 with h | h | h
  · have hmem : (chunkTableSuffix taskType cfg.primary, (taskType, cfg)) ∈
        embedConfigs.entries.map fun e => (chunkTableSuffix e.1 e.2.primary, e) :=
      List.mem_map_of_mem he
    rw [find?_take_eq (by decide) hmem (by omega)]
    simp only [Option.map_some, and_true]
    omega
  · have hfirst : (embedConfigs.entries.map fun e => (chunkTableSuffix e.1 e.2.primary, e)).find?
        (fun _ => true) = some (chunkTableSuffix "body" bgeBaseEmbedCfg.primary,
          ("body", bgeBaseEmbedCfg)) := rfl
    simp only [h, Nat.reduceAdd, Nat.sub_self, List.take_zero, decide_true, hfirst,
      Option.map_some, Option.some.injEq, Prod.mk.injEq]
    constructor
    · rintro ⟨-, rfl, -⟩
      exact .inr ⟨trivial, rfl⟩
    · intro hb
      obtain rfl := (hb.resolve_left (by omega)).2
      have hcfg : ∀ e ∈ embedConfigs.entries, e.1 = "body" → bgeBaseEmbedCfg = e.2 := by decide
      exact ⟨by omega, rfl, hcfg (_, cfg) he rfl⟩
  · exact iff_of_false (fun hle => absurd hle.1 (by omega)) (by omega)

theorem parse_build_chunk_table_iff_main :
    parseChunkTableName (buildChunkTableName ("posts_" ++ "main") "body" bgeBaseEmbedCfg.primary)
      (buildChunkTableSuffixMap embedConfigs) =
        some ("posts_" ++ "main", "body", bgeBaseEmbedCfg) :=
  (parse_build_chunk_table_iff (.head _) "main").mpr (by decide)

/-- A library may be called `chunks`, and its tables are cut at the wrong marker. -/
theorem chunks_library_not_parsed :
    validateLibraryId "chunks" = .ok "chunks" ∧
      parseChunkTableName (buildChunkTableName "posts_chunks" "body" bgeBaseEmbedCfg.primary)
        (buildChunkTableSuffixMap embedConfigs) ≠
          some ("posts_chunks", "body", bgeBaseEmbedCfg) := by
  decide +kernel

end RoundTrip

end RagPipeline
